import Asnx.FileBridge.Aliases

/-!
# Packaged files

`find_packaged_local_fallback` of `source/file_bridge.c`: a file that the guest expects among its
downloads may be packaged below `DATA_ROOT/assets/local`. The scan over the segments of the name is
compared with the segments themselves, so that the names it accepts are known.
-/

namespace Asnx.FileBridge

open Files Searching
open Installer (dataRoot)

/-- `guest_pfx` -/
def downloadedDir : Bytes := androidFilesDir ++ bytes "/downloaded/"

/-- The packaged file of a name. -/
def localPath (rel : Bytes) : Bytes := dataRoot ++ bytes "/assets/local/" ++ rel

/-- The loop over the segments; every turn shortens what is left of the name. -/
def scanSegments : Nat → Bytes → Bool
  | 0, _ => true
  | turns + 1, seg =>
      if seg = [] then true
      else
        let slash := strchr 47 seg
        let n := match slash with
          | none => seg.length
          | some found => seg.length - found.length
        if (n = 1 ∧ seg.take 1 = [46]) ∨ (n = 2 ∧ seg.take 2 = [46, 46]) then false
        else
          match slash with
          | none => true
          | some found => if found.tail = [] then false else scanSegments turns found.tail

/-- `find_packaged_local_fallback`: what it prints, if it comes to that, and whether it returns
1. -/
def findPackagedLocalFallback (guest : Bytes) (cap : Nat) : Option Bytes × Bool :=
  match after downloadedDir (stripRuntimePrefixedAndroidPath guest) with
  | none => (none, false)
  | some rel =>
      if rel = [] ∨ rel.head? = some 47 ∨ (strchr 92 rel).isSome then (none, false)
      else if scanSegments rel.length rel = false then (none, false)
      else
        let n := (localPath rel).length
        (if cap = 0 then none else some ((localPath rel).take (cap - 1)), decide (0 < n ∧ n < cap))

/-! ## The names that are accepted -/

/-- A segment that leads nowhere, or back up. -/
def isDots (s : Bytes) : Bool := s = [46] ∨ s = [46, 46]

/-- A name that stays below the directory it is put behind. -/
structure SafeName (rel : Bytes) : Prop where
  nonempty : rel ≠ []
  backslash : 92 ∉ rel
  starts : rel.head? ≠ some 47
  ends : rel.getLast? ≠ some 47
  segments : ∀ s ∈ rel.splitOn 47, isDots s = false

/-- A path of the guest for the name `rel` among its downloads. -/
def Downloaded (guest rel : Bytes) : Prop :=
  guest = downloadedDir ++ rel ∨ guest = dataRoot ++ downloadedDir ++ rel

/-- The test of a segment that ends at the slash. -/
theorem dots_before (s rest : Bytes) :
    ((s.length = 1 ∧ (s ++ rest).take 1 = [46]) ∨ (s.length = 2 ∧ (s ++ rest).take 2 = [46, 46])) ↔
      isDots s = true := by
  unfold isDots
  rw [decide_eq_true_iff]
  constructor
  · rintro (⟨hlength, htake⟩ | ⟨hlength, htake⟩)
    · exact .inl (by rwa [← hlength, List.take_left] at htake)
    · exact .inr (by rwa [← hlength, List.take_left] at htake)
  · rintro (rfl | rfl)
    · exact .inl ⟨rfl, by simp⟩
    · exact .inr ⟨rfl, by simp⟩

/-- The scan accepts a name that does not end with a slash and has no segment of dots. -/
theorem scanSegments_iff (turns : Nat) {seg : Bytes} (hturns : seg.length ≤ turns)
    (hseg : seg ≠ []) :
    scanSegments turns seg = true ↔
      seg.getLast? ≠ some 47 ∧ ∀ s ∈ seg.splitOn 47, isDots s = false := by
  induction turns generalizing seg with
  | zero => exact absurd (List.length_eq_zero_iff.1 (by omega)) hseg
  | succ turns ih =>
      rw [scanSegments, if_neg hseg]
      by_cases hslash : 47 ∈ seg
      case neg =>
        -- the last segment
        have hdots := dots_before seg []
        rw [List.append_nil] at hdots
        have hlast : seg.getLast? ≠ some 47 := fun h => hslash (List.mem_of_getLast? h)
        simp only [strchr_none.2 hslash, hdots, List.splitOn_eq_singleton hslash,
          List.forall_mem_singleton]
        cases isDots seg <;> simp [hlast]
      case pos =>
        obtain ⟨s, rest, rfl, hs⟩ := List.eq_append_cons_of_mem hslash
        have hn : (s ++ 47 :: rest).length - (47 :: rest).length = s.length := by
          rw [List.length_append, Nat.add_sub_cancel]
        simp only [strchr_append hs, hn, dots_before,
          List.splitOn_append_cons_self, List.splitOn_eq_singleton hs, List.forall_mem_append,
          List.forall_mem_singleton]
        by_cases hdots : isDots s = true
        case pos => simp [hdots]
        case neg =>
          rw [if_neg hdots]
          by_cases hrest : (47 :: rest).tail = []
          case pos =>
            rw [if_pos hrest, show rest = [] from hrest]
            simp
          case neg =>
            have hlength : rest.length ≤ turns := by
              rw [List.length_append, List.length_cons] at hturns
              omega
            have hlast : (s ++ 47 :: rest).getLast? = rest.getLast? := by
              rw [List.getLast?_append_cons, List.getLast?_cons_of_ne_nil
                (show rest ≠ [] from hrest)]
            rw [if_neg hrest, List.tail_cons, ih hlength hrest, hlast, Bool.eq_false_iff.2 hdots]
            simp

/-! ## The paths that are accepted -/

/-- `guest_pfx` is below the data of the guest. -/
theorem downloadedDir_below : ∃ more, downloadedDir = androidDataDir ++ 47 :: more := by
  refine ⟨bytes "files/downloaded/", ?_⟩
  decide

/-- `DATA_ROOT` is not where the downloads begin. -/
theorem differ_root_downloaded : Differ dataRoot downloadedDir := by decide

/-- What is stripped to a name among the downloads is such a path, with `DATA_ROOT` or without. -/
theorem strip_downloaded {guest rel : Bytes} :
    stripRuntimePrefixedAndroidPath guest = downloadedDir ++ rel ↔ Downloaded guest rel := by
  obtain ⟨more, hmore⟩ := downloadedDir_below
  have hbelow : endsHere (downloadedDir ++ rel) = true := by
    have hslash : downloadedDir = 47 :: downloadedDir.tail := by decide
    rw [hslash]
    exact endsHere_slash _
  have handroid : isAndroid (downloadedDir ++ rel) = true := by
    rw [hmore, List.append_assoc]
    exact isAndroid_data (endsHere_slash _)
  constructor
  · intro h
    cases hroot : below dataRoot guest with
    | none =>
        rw [strip_outside hroot] at h
        exact .inl h
    | some nested =>
        obtain ⟨rfl, hnested⟩ := below_eq_some.1 hroot
        rw [strip_root hnested] at h
        split at h
        case isTrue => exact .inr (by rw [h, List.append_assoc])
        case isFalse =>
          -- the path would begin with both
          have hbegins : dataRoot <+: downloadedDir ++ rel := h ▸ List.prefix_append dataRoot nested
          exact absurd hbegins (differ_root_downloaded.not_begins rel)
  · rintro (rfl | rfl)
    · exact strip_outside (below_differ differ_root_downloaded rel)
    · rw [List.append_assoc, strip_root hbelow, if_pos handroid]

/-- The name of a path among the downloads. -/
theorem after_downloaded {guest rel : Bytes} :
    after downloadedDir (stripRuntimePrefixedAndroidPath guest) = some rel ↔
      Downloaded guest rel := by
  rw [after_eq_some, strip_downloaded]

/-- The tests of a name accept the safe ones. -/
theorem safeName_iff {rel : Bytes} :
    SafeName rel ↔ ¬ (rel = [] ∨ rel.head? = some 47 ∨ (strchr 92 rel).isSome = true) ∧
      scanSegments rel.length rel = true := by
  have hslash : (strchr 92 rel).isSome = true ↔ 92 ∈ rel := by
    rw [← not_iff_not, ← strchr_none, Bool.not_eq_true, Option.isSome_eq_false_iff,
      Option.isNone_iff_eq_none]
  rw [hslash]
  constructor
  · rintro ⟨hnonempty, hbackslash, hstarts, hends, hsegments⟩
    refine ⟨by simp [hnonempty, hbackslash, hstarts], ?_⟩
    exact (scanSegments_iff _ le_rfl hnonempty).2 ⟨hends, hsegments⟩
  · rintro ⟨htests, hscan⟩
    obtain ⟨hnonempty, htests⟩ := not_or.1 htests
    obtain ⟨hstarts, hbackslash⟩ := not_or.1 htests
    obtain ⟨hends, hsegments⟩ := (scanSegments_iff _ le_rfl hnonempty).1 hscan
    exact ⟨hnonempty, hbackslash, hstarts, hends, hsegments⟩

/-- For every path and capacity, the fallback is found exactly for the safe names among the
downloads whose packaged path fits, and then that path is what is printed. -/
theorem fallback_exact (guest : Bytes) (cap : Nat) :
    ((findPackagedLocalFallback guest cap).2 = true ↔
      ∃ rel, Downloaded guest rel ∧ SafeName rel ∧ (localPath rel).length < cap) ∧
    ∀ rel, Downloaded guest rel → (findPackagedLocalFallback guest cap).2 = true →
      (findPackagedLocalFallback guest cap).1 = some (localPath rel) := by
  cases hrel : after downloadedDir (stripRuntimePrefixedAndroidPath guest) with
  | none =>
      have hnot : ∀ rel, ¬ Downloaded guest rel := by
        intro rel h
        rw [after_downloaded.2 h] at hrel
        cases hrel
      simp [findPackagedLocalFallback, hrel, hnot]
  | some name =>
      have hdownloaded := after_downloaded.1 hrel
      -- the path has one name among the downloads
      have hunique : ∀ rel, Downloaded guest rel → rel = name := by
        intro rel h
        rw [after_downloaded.2 h] at hrel
        exact Option.some.inj hrel
      have hpos : 0 < (localPath name).length := by
        have hroot : 0 < dataRoot.length := by decide
        unfold localPath
        rw [List.length_append, List.length_append]
        omega
      by_cases hsafe : SafeName name
      case pos =>
        obtain ⟨htests, hscan⟩ := safeName_iff.1 hsafe
        have hfind : findPackagedLocalFallback guest cap =
            (if cap = 0 then none else some ((localPath name).take (cap - 1)),
              decide (0 < (localPath name).length ∧ (localPath name).length < cap)) := by
          simp only [findPackagedLocalFallback, hrel]
          rw [if_neg htests, if_neg (by simp [hscan])]
        rw [hfind]
        constructor
        · rw [decide_eq_true_iff]
          constructor
          · rintro ⟨-, hfits⟩
            exact ⟨name, hdownloaded, hsafe, hfits⟩
          · rintro ⟨rel, h, -, hfits⟩
            rw [hunique rel h] at hfits
            exact ⟨hpos, hfits⟩
        · intro rel h hfits
          obtain ⟨-, hfits⟩ := of_decide_eq_true hfits
          rw [hunique rel h]
          show (if cap = 0 then none else some ((localPath name).take (cap - 1))) = _
          rw [if_neg (by omega), List.take_of_length_le (by omega)]
      case neg =>
        -- one of the tests or the scan refuses the name
        have hfind : findPackagedLocalFallback guest cap = (none, false) := by
          simp only [findPackagedLocalFallback, hrel]
          split
          case isTrue => rfl
          case isFalse htests =>
            split
            case isTrue => rfl
            case isFalse hscan =>
              exact absurd (safeName_iff.2 ⟨htests, Bool.not_eq_false _ ▸ hscan⟩) hsafe
        rw [hfind]
        refine ⟨⟨nofun, ?_⟩, nofun⟩
        rintro ⟨rel, h, hsafe', -⟩
        exact absurd (hunique rel h ▸ hsafe') hsafe

/-- A name with an empty segment is found. -/
theorem fallback_exact_example :
    (findPackagedLocalFallback (dataRoot ++ downloadedDir ++ bytes "a//b") 1024).2 = true ∧
    (findPackagedLocalFallback (dataRoot ++ downloadedDir ++ bytes "a//b") 1024).1
      = some (bytes "sdmc:/switch/angrybirdas_nx/runtime/assets/local/a//b") := by
  obtain ⟨hfound, hprinted⟩ :=
    fallback_exact (dataRoot ++ downloadedDir ++ bytes "a//b") 1024
  have hname : Downloaded (dataRoot ++ downloadedDir ++ bytes "a//b") (bytes "a//b") := .inr rfl
  have hsafe : SafeName (bytes "a//b") :=
    ⟨by decide, by decide, by decide, by decide, by decide⟩
  have hreturns := hfound.2 ⟨_, hname, hsafe, by decide⟩
  exact ⟨hreturns, hprinted _ hname hreturns⟩

end Asnx.FileBridge
