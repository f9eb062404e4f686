import Asnx.Installer.Enumeration
import Asnx.Installer.Installing
import Asnx.Installer.Preparing
import Asnx.Library.Room

/-!
# What the space plan adds up

When nothing fails, `build_install_space_plan` adds up the replacements of the targets of all
selected entries, and those of the caches of the entries that `cache_target_for_apk_entry` knows
(`total_buildInstallSpacePlan`).
-/

namespace Asnx.Installer

open Interrupted Files Room

/-! ## The replacements -/

/-- The sizes of files; one that is missing has none. -/
def sizes (files : Contents) (p : Path) : Nat := ((files p).getD []).length

/-- The replacement of the target of an entry that is selected. -/
def payloadWrite (e : ZipEntry) : Option (Path × Nat) :=
  (installEntryTarget e).target.map fun target => (resolve target, e.usize)

/-- The replacement of the cache of an entry that is selected. -/
def cacheWrite (e : ZipEntry) : Option (Path × Nat) :=
  (installEntryTarget e).target.bind fun _ =>
    (cacheTargetForApkEntry e.name).map fun cacheTarget => (resolve cacheTarget, e.usize)

def payloadWrites (es : List ZipEntry) : List (Path × Nat) := es.filterMap payloadWrite

def cacheWrites (es : List ZipEntry) : List (Path × Nat) := es.filterMap cacheWrite

section Sums

variable {size : Path → Nat} {ws : List (Path × Nat)} {w : Path × Nat} {es : List ZipEntry}
  {e : ZipEntry} {p : InstallSpacePlan} {written credit peak : Nat}

theorem payloadWrites_snoc : payloadWrites (es ++ [e]) =
    payloadWrites es ++ (payloadWrite e).toList := by
  unfold payloadWrites
  rw [List.filterMap_append]
  cases h : payloadWrite e <;> simp [h]

theorem cacheWrites_snoc : cacheWrites (es ++ [e]) = cacheWrites es ++ (cacheWrite e).toList := by
  unfold cacheWrites
  rw [List.filterMap_append]
  cases h : cacheWrite e <;> simp [h]

/-- The sums over replacements: what they write, and what there is of it at the start. -/
structure Sums (size : Path → Nat) (ws : List (Path × Nat)) (written credit : Nat) : Prop where
  written : written = (ws.map Prod.snd).sum
  credit : credit = (ws.map fun w => min (size w.1) w.2).sum

theorem Sums.snoc (h : Sums size ws written credit) :
    Sums size (ws ++ [w]) (written + w.2) (credit + min (size w.1) w.2) := by
  constructor
  · rw [List.map_append, List.sum_append, h.written]
    rfl
  · rw [List.map_append, List.sum_append, h.credit]
    rfl

/-- The sums make up for the growth. -/
theorem Sums.growth (h : Sums size ws written credit) :
    (if written > credit then written - credit else 0) = totalGrowth size ws := by
  have htotal := totalGrowth_add size ws
  rw [← h.written, ← h.credit] at htotal
  split <;> omega

/-- There is room for the sibling of each file that is there at the start. -/
def Covers (size : Path → Nat) (ws : List (Path × Nat)) (peak : Nat) : Prop :=
    ∀ w ∈ ws, 0 < size w.1 → w.2 ≤ peak

theorem Covers.snoc (h : Covers size ws peak) {peak' : Nat} (hle : peak ≤ peak')
    (hw : 0 < size w.1 → w.2 ≤ peak') :
    Covers size (ws ++ [w]) peak' := by
  intro w' hw' hpos
  rcases List.mem_append.1 hw' with hw' | hw'
  · exact Nat.le_trans (h w' hw' hpos) hle
  · obtain rfl := List.mem_singleton.1 hw'
    exact hw hpos

/-- The plan after the visits of the entries. -/
structure Planned (size : Path → Nat) (es : List ZipEntry) (p : InstallSpacePlan) : Prop where
  payload : Sums size (payloadWrites es) p.finalPayloadBytes p.existingPayloadCredit
  cache : Sums size (cacheWrites es) p.cacheBytes p.existingCacheCredit
  peak_payload : Covers size (payloadWrites es) p.replacePeakBytes
  peak_cache : Covers size (cacheWrites es) p.replacePeakBytes
  required : ∀ r ∈ p.required, ∃ e ∈ es, ∃ target, installEntryTarget e = .select target (some r)

theorem planned_empty : Planned size [] .empty :=
  ⟨⟨rfl, rfl⟩, ⟨rfl, rfl⟩, nofun, nofun, nofun⟩

/-- What the plan comes to. -/
theorem Planned.requiredExtra (h : Planned size es p) : p.requiredExtra =
    totalGrowth size (payloadWrites es) + totalGrowth size (cacheWrites es) + p.replacePeakBytes +
      installSpaceReserveBytes := by
  rw [← h.payload.growth, ← h.cache.growth]
  rfl

end Sums

/-! ## Looking at files -/

section Looking

variable {fs : Fs} {path : Bytes} {n : Nat} {p : InstallSpacePlan}

/-- What `stat` finds when it does not fail. -/
theorem total_stat : Total Calm (fun w : World Memory => w.fs = fs) (stat path) fun r w =>
    ((∀ e, r = .error e → sizes fs.file (resolve path) = 0) ∧
      ∀ st, r = .ok st → st.size = sizes fs.file (resolve path) ∧ (st.isDir = true → st.size = 0)) ∧
        w.fs = fs := by
  refine total_operation ?_
  rintro w rfl
  refine ⟨?_, rfl⟩
  unfold sizes Fs.file
  cases hlookup : w.fs.lookup (resolve path) with
  | none => exact ⟨fun _ _ => rfl, nofun⟩
  | some node =>
      cases node with
      | file content =>
          refine ⟨nofun, ?_⟩
          rintro _ ⟨⟩
          exact ⟨rfl, nofun⟩
      | dir =>
          refine ⟨nofun, ?_⟩
          rintro _ ⟨⟩
          exact ⟨rfl, fun _ => rfl⟩

theorem total_existingCreditForFile : Total Calm (fun w => w.fs = fs)
    (existingCreditForFile path n) fun r w =>
    r = min (sizes fs.file (resolve path)) n ∧ w.fs = fs := by
  refine total_bind total_stat fun r => .assume ?_
  rintro ⟨herror, hok⟩
  cases r with
  | error e => exact total_pure fun w hw => ⟨by rw [herror e rfl, Nat.zero_min], hw⟩
  | ok st =>
      obtain ⟨hsize, hdir⟩ := hok st rfl
      refine total_ite (fun hnone => total_pure fun w hw => ⟨?_, hw⟩) fun _ =>
        total_pure fun w hw => ⟨?_, hw⟩
      · rw [← hsize, hnone.elim hdir id, Nat.zero_min]
      · rw [hsize]

theorem total_fileExistsNonempty : Total Calm (fun w => w.fs = fs)
    (fileExistsNonempty path) fun r w =>
    r = decide (0 < sizes fs.file (resolve path)) ∧ w.fs = fs := by
  refine total_bind total_stat fun r => .assume ?_
  rintro ⟨herror, hok⟩
  cases r with
  | error e => exact total_pure fun w hw => ⟨by rw [herror e rfl]; rfl, hw⟩
  | ok st => exact total_pure fun w hw => ⟨by rw [← (hok st rfl).1], hw⟩

/-- The peak of a plan is raised to the size where a file is replaced. -/
theorem total_replacePeak : Total Calm (fun w => w.fs = fs) (replacePeak path n p) fun r w =>
    (∃ peak, r = { p with replacePeakBytes := peak } ∧ p.replacePeakBytes ≤ peak ∧
      (0 < sizes fs.file (resolve path) → n ≤ peak)) ∧ w.fs = fs := by
  refine total_bind total_fileExistsNonempty fun there => .assume ?_
  rintro rfl
  refine total_ite (fun hlarger => total_pure fun w hw =>
    ⟨⟨n, rfl, Nat.le_of_lt hlarger.2, fun _ => Nat.le_refl n⟩, hw⟩) fun hnot =>
      total_pure fun w hw => ⟨⟨p.replacePeakBytes, rfl, Nat.le_refl _, fun hthere => ?_⟩, hw⟩
  exact Nat.le_of_not_lt fun hlt => hnot ⟨decide_eq_true hthere, hlt⟩

end Looking

/-! ## The plan -/

section Plans

variable {α : Type} {fs : Fs} {apk : Bytes} {path : Path} {es : List ZipEntry} {e : ZipEntry}
  {p : InstallSpacePlan}

/-- The rule for the loop of `zip_visit` with a visitor that does its work when nothing fails. -/
theorem total_visitRecords_of {visitor : ZipVisitor α} {I : List ZipEntry → α → Fs → Prop}
    (hfile : ∀ es user fs, I es user fs → fs.file path = some apk)
    (hvisit : ∀ es user e fp, fp.path = path →
      Total Calm (fun w => I es user w.fs) (visitor fp e user)
      fun r w => r.1 = true → r.2.1.path = path ∧ I (es ++ [e]) r.2.2 w.fs)
    (n : Nat) (fp : InFile) (user : α) (es : List ZipEntry) (hpath : fp.path = path) :
    Total Calm (fun w => I es user w.fs) (visitRecords visitor n fp user) fun r w => r.1 = true →
      ∃ rest, centralEntries apk fp.pos n = some rest ∧ I (es ++ rest) r.2 w.fs := by
  induction n generalizing fp user es with
  | zero => exact total_pure fun w hw _ => ⟨[], rfl, by rwa [List.append_nil]⟩
  | succ n ih =>
      refine total_bind_eq (total_readRecord (hfile es user) hpath) ?_
      cases hentry : centralEntry apk fp.pos with
      | none => exact total_pure fun w hw hok => absurd hok Bool.false_ne_true
      | some r =>
          obtain ⟨e, next⟩ := r
          refine total_bind_eq total_ftell (total_bind (hvisit es user e _ rfl) ?_)
          rintro ⟨ok, fp', user'⟩
          cases ok with
          | false => exact total_pure fun w hw hok => absurd hok Bool.false_ne_true
          | true =>
              refine Total.pre (P := fun w => fp'.path = path ∧ I (es ++ [e]) user' w.fs)
                (.assume fun hpath' => ?_)
                fun w hw => hw rfl
              refine total_bind_eq total_fseek ?_
              refine (ih { fp' with pos := next } user' (es ++ [e]) hpath').post
                fun r w hr hok => ?_
              obtain ⟨rest, hrest, hI⟩ := hr hok
              refine ⟨e :: rest, ?_, ?_⟩
              · simp only [centralEntries, hentry, hrest]
              · rwa [List.append_assoc] at hI

/-- The visit of an entry adds its replacements to the plan. -/
theorem total_installSpaceVisitor (h : Planned (sizes fs.file) es p) {fp : InFile} :
    Total Calm (fun w => w.fs = fs) (installSpaceVisitor fp e p) fun r w => r.1 = true →
      r.2.1 = fp ∧ w.fs = fs ∧ Planned (sizes fs.file) (es ++ [e]) r.2.2 := by
  -- what was required of the entries before still is
  have hrequired : ∀ r ∈ p.required, ∃ e' ∈ es ++ [e], ∃ target, installEntryTarget e' =
      .select target (some r) := by
    intro r hr
    obtain ⟨e', he', htarget⟩ := h.required r hr
    exact ⟨e', List.mem_append_left _ he', htarget⟩
  unfold installSpaceVisitor
  cases hselection : installEntryTarget e with
  | error m =>
      refine total_bind (R := fun r _ => r = false) (total_bind (R := fun _ _ => True)
        (total_update fun _ _ => trivial) fun _ => total_pure fun _ _ => rfl) fun r => ?_
      exact total_pure fun w hr hok => absurd (hr.symm.trans hok) Bool.false_ne_true
  -- an entry that is not installed adds nothing to either list
  | skip =>
      have hpayload : payloadWrites (es ++ [e]) = payloadWrites es := by
        rw [payloadWrites_snoc, payloadWrite, hselection]
        exact List.append_nil _
      have hcache : cacheWrites (es ++ [e]) = cacheWrites es := by
        rw [cacheWrites_snoc, cacheWrite, hselection]
        exact List.append_nil _
      exact total_pure fun w hw _ =>
        ⟨rfl, hw, hpayload ▸ h.payload, hcache ▸ h.cache, hpayload ▸ h.peak_payload,
        hcache ▸ h.peak_cache, hrequired⟩
  | select target required =>
      have hpayload : payloadWrites (es ++ [e]) = payloadWrites es ++
          [(resolve target, e.usize)] := by
        rw [payloadWrites_snoc, payloadWrite, hselection]
        rfl
      have hrequired' : ∀ r ∈ p.required ++ required.toList, ∃ e' ∈ es ++ [e], ∃ target,
          installEntryTarget e' = .select target (some r) := by
        intro r hr
        rcases List.mem_append.1 hr with hr | hr
        · exact hrequired r hr
        · rw [Option.mem_toList.1 hr] at hselection
          exact ⟨e, by simp, target, hselection⟩
      -- the payload first; a resource that is also cached is counted a second time
      refine total_bind_eq total_existingCreditForFile
        (total_bind total_replacePeak fun p₁ => .assume ?_)
      rintro ⟨peak, rfl, hpeak, hthere⟩
      have hsums := h.payload.snoc (w := (resolve target, e.usize))
      have hcovers := h.peak_payload.snoc (w := (resolve target, e.usize)) hpeak hthere
      cases hcacheTarget : cacheTargetForApkEntry e.name with
      | none =>
          have hcache : cacheWrites (es ++ [e]) = cacheWrites es := by
            rw [cacheWrites_snoc, cacheWrite, hselection, hcacheTarget]
            exact List.append_nil _
          exact total_pure fun w hw _ =>
            ⟨rfl, hw, hpayload ▸ hsums, hcache ▸ h.cache, hpayload ▸ hcovers,
            hcache ▸ fun w hw hpos => Nat.le_trans (h.peak_cache w hw hpos) hpeak, hrequired'⟩
      | some cacheTarget =>
          have hcache : cacheWrites (es ++ [e]) = cacheWrites es ++
              [(resolve cacheTarget, e.usize)] := by
            rw [cacheWrites_snoc, cacheWrite, hselection, hcacheTarget]
            rfl
          refine total_bind_eq total_existingCreditForFile
            (total_bind total_replacePeak fun p₂ => .assume ?_)
          rintro ⟨peak', rfl, hpeak', hthere'⟩
          refine total_pure fun w hw _ =>
            ⟨rfl, hw, hpayload ▸ hsums, hcache ▸ h.cache.snoc, hpayload ▸ ?_, hcache ▸ ?_,
            hrequired'⟩
          · exact fun w hw hpos => Nat.le_trans (hcovers w hw hpos) hpeak'
          · exact h.peak_cache.snoc (Nat.le_trans hpeak hpeak') hthere'

/-- When nothing fails, the plan is that of the entries of the archive, among which are all
required ones. -/
theorem total_buildInstallSpacePlan {z : ZipArchive} (hapk : fs.file z.fp.path = some apk) :
    Total Calm (fun w => w.fs = fs) (buildInstallSpacePlan z) fun r w =>
      ∀ plan need, r = some (plan, need) →
      w.fs = fs ∧ ∃ es, centralEntries apk z.cdOffset z.entries = some es ∧
        Planned (sizes fs.file) es plan ∧
        need = plan.requiredExtra ∧ ∀ r ∈ allRequired, r ∈ plan.required := by
  have hvisit : Total Calm (fun w => w.fs = fs) (zipVisit z installSpaceVisitor .empty) fun r w =>
    r.1 = true →
      ∃ es, centralEntries apk z.cdOffset z.entries = some es ∧ w.fs = fs ∧
        Planned (sizes fs.file) es r.2 := by
    refine total_bind_eq total_fseek (total_visitRecords_of
      (I := fun es p fs' => fs' = fs ∧ Planned (sizes fs.file) es p) ?_ ?_ z.entries _ _ [] rfl)
        |>.pre ?_
    · rintro es p _ ⟨rfl, -⟩
      exact hapk
    · refine fun es p e fp hpath =>
        Total.pre (P := fun w => Planned (sizes fs.file) es p ∧ w.fs = fs)
        (.assume fun hplanned => ?_) fun w hw => ⟨hw.2, hw.1⟩
      exact (total_installSpaceVisitor hplanned).post fun r w hr hok => by
        obtain ⟨hfp, hfs, hplanned'⟩ := hr hok
        exact ⟨hfp ▸ hpath, hfs, hplanned'⟩
    · exact fun w hw => ⟨hw, planned_empty⟩
  refine total_bind hvisit ?_
  rintro ⟨ok, p⟩
  refine total_ite (fun _ => ?_) fun hok => total_ite (fun _ => ?_) fun hall => ?_
  · refine total_bind (R := fun _ _ => True) ?_ fun _ => total_pure nofun
    unfold failsUnlessSet modifyMemory
    exact total_update fun _ _ => trivial
  · exact total_bind (R := fun _ _ => True)
      (total_bind (R := fun _ _ => True) (total_update fun _ _ => trivial)
      fun _ => total_pure fun _ _ => trivial) fun _ => total_pure nofun
  · refine total_pure fun w hw => ?_
    rintro plan need ⟨⟩
    obtain ⟨es, hes, hfs, hplanned⟩ := hw (by simpa using hok)
    refine ⟨hfs, es, hes, hplanned, rfl, fun r hr => ?_⟩
    have hall : allRequired.all (p.required.contains ·) = true := by simpa using hall
    exact List.contains_iff_mem.1 (List.all_eq_true.1 hall r hr)

end Plans

end Asnx.Installer
