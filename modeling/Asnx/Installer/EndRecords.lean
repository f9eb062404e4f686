import Asnx.Installer.Enumeration

/-!
# The end record that is found

`zip_open` takes the last place at which the signature of an end record stands, at least 22 bytes
before the end of the file, and does not look at the length of the comment. So it takes the fields
of the end record exactly when the last such place has the same ones (`zip_open_right_iff`), which a
comment with a signature in it may prevent.
-/

namespace Asnx.Installer

open Interrupted Files

section EndRecords

variable {apk : Bytes} {pos q : Nat}

/-- An end record without ZIP64, with at least one entry, whose comment reaches to the end. -/
structure EndRecord (apk : Bytes) (pos : Nat) : Prop where
  signature : rd32 apk pos = 0x06054b50
  comment : pos + 22 + rd16 apk (pos + 20) = apk.length
  entries : rd16 apk (pos + 10) ≠ 0
  cdOffset : rd32 apk (pos + 16) ≠ 0xFFFFFFFF

/-- The last place at least 22 bytes before the end at which the signature of an end record
stands. -/
structure LastSignature (apk : Bytes) (q : Nat) : Prop where
  fits : q + 22 ≤ apk.length
  signature : rd32 apk q = 0x06054b50
  last : ∀ j, q < j → j + 22 ≤ apk.length → rd32 apk j ≠ 0x06054b50

theorem rd16_drop (b : Bytes) (n i : Nat) : rd16 (b.drop n) i = rd16 b (n + i) := by
  unfold rd16
  rw [List.getElem?_drop, List.getElem?_drop, Nat.add_assoc]

theorem rd32_drop (b : Bytes) (n i : Nat) : rd32 (b.drop n) i = rd32 b (n + i) := by
  unfold rd32
  rw [rd16_drop, rd16_drop, Nat.add_assoc]

/-- The search finds the last place, by induction on where it begins. -/
theorem findEndRecord_spec (tail : Bytes) (start : Nat) :
    match findEndRecord tail start with
    | some k => k ≤ start ∧ rd32 tail k = 0x06054b50 ∧
        ∀ j, k < j → j ≤ start → rd32 tail j ≠ 0x06054b50
    | none => ∀ j, j ≤ start → rd32 tail j ≠ 0x06054b50 := by
  induction start with
  | zero =>
      unfold findEndRecord
      by_cases hsignature : rd32 tail 0 = 0x06054b50
      · rw [if_pos hsignature]
        exact ⟨Nat.le_refl 0, hsignature, fun j hj hle => absurd hj (by omega)⟩
      · rw [if_neg hsignature]
        intro j hj
        rwa [Nat.le_zero.1 hj]
  | succ start ih =>
      unfold findEndRecord
      by_cases hsignature : rd32 tail (start + 1) = 0x06054b50
      · rw [if_pos hsignature]
        exact ⟨Nat.le_refl _, hsignature, fun j hj hle => absurd hj (by omega)⟩
      rw [if_neg hsignature]
      dsimp only
      split at ih
      · obtain ⟨hle, hfound, hlast⟩ := ih
        refine ⟨by omega, hfound, fun j hj hj' => ?_⟩
        rcases Nat.lt_or_ge start j with hnew | hold
        · rwa [show j = start + 1 by omega]
        · exact hlast j hj hold
      · intro j hj
        rcases Nat.lt_or_ge start j with hnew | hold
        · rwa [show j = start + 1 by omega]
        · exact ih j hold

/-- Behind a place with the signature there is a last one. -/
theorem exists_lastSignature (hfits : pos + 22 ≤ apk.length) (h : rd32 apk pos = 0x06054b50) :
    ∃ q, LastSignature apk q ∧ pos ≤ q := by
  have hspec := findEndRecord_spec apk (apk.length - 22)
  split at hspec
  · rename_i k hk
    obtain ⟨hle, hfound, hlast⟩ := hspec
    refine ⟨k, ⟨by omega, hfound, fun j hj hj' => hlast j hj (by omega)⟩, ?_⟩
    by_contra hlt
    exact hlast pos (by omega) (by omega) h
  · exact absurd h (hspec pos (by omega))

/-- What the search comes to in a tail that the last place lies in. -/
theorem findEndRecord_last (h : LastSignature apk q) {n : Nat} (hn : n ≤ q) :
    findEndRecord (apk.drop n) ((apk.drop n).length - 22) = some (q - n) := by
  have hspec := findEndRecord_spec (apk.drop n) ((apk.drop n).length - 22)
  have hlength : (apk.drop n).length = apk.length - n := List.length_drop
  have hfits := h.fits
  have hq : rd32 (apk.drop n) (q - n) = 0x06054b50 := by
    rw [rd32_drop, show n + (q - n) = q by omega]
    exact h.signature
  split at hspec
  · rename_i k hk
    obtain ⟨hle, hfound, hlast⟩ := hspec
    rw [rd32_drop] at hfound
    rw [hk]
    rcases Nat.lt_trichotomy k (q - n) with hlt | heq | hgt
    · exact absurd hq (hlast _ hlt (by omega))
    · rw [heq]
    · exact absurd hfound (h.last _ (by omega) (by omega))
  · exact absurd hq (hspec _ (by omega))

/-- The directory of an archive is what stands at the last place, unless it lies before what is
read. -/
theorem zipDirectory_last (h : LastSignature apk q) (hread : apk.length ≤ q + tailBytes) :
    zipDirectory apk =
      if rd16 apk (q + 10) = 0 ∨ rd32 apk (q + 16) = 0xFFFFFFFF then none
      else some (rd16 apk (q + 10), rd32 apk (q + 16)) := by
  have hfits := h.fits
  generalize hn : apk.length - min apk.length tailBytes = n
  have hle : n ≤ q := by omega
  have hfields : ∀ i, n + (q - n + i) = q + i := fun i => by omega
  unfold zipDirectory directoryOf
  rw [if_neg (by omega), hn, findEndRecord_last h hle]
  dsimp only
  rw [rd16_drop, rd32_drop, hfields, hfields]
  rfl

/-- What `zip_open` gives is the directory of the archive. -/
theorem total_zipOpen {name : Bytes} :
    Total Calm (Holding (resolve name) apk) (zipOpen name) fun r w =>
      r = (zipDirectory apk).map (fun (entries, cdOffset) =>
        ⟨⟨resolve name, apk.length, false⟩, entries, cdOffset⟩) ∧ Holding (resolve name) apk w := by
  have hbad : ∀ fp, zipDirectory apk = none →
      Total Calm (Holding (resolve name) apk)
        (do fcloseRead fp; pure none : Install (Option ZipArchive)) fun r w =>
          r = (zipDirectory apk).map (fun (entries, cdOffset) =>
            ⟨⟨resolve name, apk.length, false⟩, entries, cdOffset⟩) ∧
              Holding (resolve name) apk w := fun fp hnone =>
    total_bind total_fcloseRead fun _ => total_pure fun w hw => ⟨by rw [hnone]; rfl, hw⟩
  refine total_bind_eq (total_fopenRead fun w hw => ⟨apk, hw⟩) ?_
  refine total_bind_eq (total_fseekEnd fun w hw => hw) ?_
  refine total_bind_eq total_ftell ?_
  refine total_ite (fun hshort => hbad _ (if_pos hshort)) fun hlong => ?_
  refine total_bind_eq total_chance (total_ite (fun h => absurd h (by decide)) fun _ => ?_)
  refine total_bind_eq total_fseek
    (total_bind_eq (total_fread_slice (P := fun fs => fs.file (resolve name) = some apk)
    (fun _ hfs => hfs) rfl) ?_)
  dsimp only
  have htail : slice apk (apk.length - min apk.length tailBytes) (min apk.length tailBytes) =
      apk.drop (apk.length - min apk.length tailBytes) :=
    List.take_of_length_le (by rw [List.length_drop]; omega)
  have hlength : (apk.drop (apk.length - min apk.length tailBytes)).length =
      min apk.length tailBytes := by
    rw [List.length_drop]
    omega
  have hdirectory : zipDirectory apk =
      directoryOf (apk.drop (apk.length - min apk.length tailBytes)) := if_neg hlong
  rw [htail, hlength]
  refine total_ite (fun h => absurd rfl h) fun _ => ?_
  cases hfound : directoryOf (apk.drop (apk.length - min apk.length tailBytes)) with
  | none => exact hbad _ (hdirectory.trans hfound)
  | some fields =>
      refine total_pure fun w hw => ⟨?_, hw⟩
      rw [hdirectory, hfound, Nat.sub_add_cancel (Nat.min_le_left _ _)]
      rfl

/-- `zip_open` takes the number of entries and the offset from the end record of an archive exactly
when the same ones stand at the last signature. -/
theorem zip_open_right_iff (hend : EndRecord apk pos) {name : Bytes} (m : Machine (World Memory))
    (hm : Powered Calm m.decisions) (hfile : Holding (resolve name) apk m.world) :
    (∃ fp m', zipOpen name m =
      (some (some ⟨fp, rd16 apk (pos + 10), rd32 apk (pos + 16)⟩), m')) ↔
    ∃ q, LastSignature apk q ∧ rd16 apk (q + 10) = rd16 apk (pos + 10) ∧
      rd32 apk (q + 16) = rd32 apk (pos + 16) := by
  obtain ⟨r, m', hrun, -, hr, -⟩ := total_zipOpen m hm hfile
  have hcomment := hend.comment
  have hshort : rd16 apk (pos + 20) < 2 ^ 16 := rd16_lt _ _
  obtain ⟨q, hq, hle⟩ := exists_lastSignature (by omega) hend.signature
  have hdirectory := zipDirectory_last hq (by unfold tailBytes; omega)
  rw [hdirectory] at hr
  constructor
  · rintro ⟨fp, m₁, hfound⟩
    rw [hrun] at hfound
    obtain rfl : r = some _ := Option.some.inj (congrArg Prod.fst hfound)
    refine ⟨q, hq, ?_⟩
    split at hr
    · cases hr
    · simp only [Option.map_some, Option.some.injEq, ZipArchive.mk.injEq] at hr
      exact ⟨hr.2.1.symm, hr.2.2.symm⟩
  · rintro ⟨q', hq', hentries, hoffset⟩
    -- there is only one last place
    have hsame : q = q' := by
      rcases Nat.lt_trichotomy q q' with hlt | heq | hgt
      · exact absurd hq'.signature (hq.last _ hlt hq'.fits)
      · exact heq
      · exact absurd hq.signature (hq'.last _ hgt hq.fits)
    subst hsame
    rw [hentries, hoffset, if_neg (not_or.2 ⟨hend.entries, hend.cdOffset⟩)] at hr
    exact ⟨_, m', by rw [hrun, hr]; rfl⟩

end EndRecords

/-! ## An end record in a comment -/

/-- An archive with one entry without content and without a local header. -/
def oneEntry (comment : Bytes) : Bytes :=
  [0x50, 0x4b, 0x01, 0x02] ++ List.replicate 24 0 ++ [1] ++ List.replicate 17 0 ++ [97] ++
    [0x50, 0x4b, 0x05, 0x06, 0, 0, 0, 0, 1, 0, 1, 0, 47, 0, 0, 0, 0, 0, 0, 0,
      UInt8.ofNat comment.length, 0] ++ comment

/-- A comment that is itself an end record, for two entries at offset 7. -/
def endRecordComment : Bytes :=
  [0x50, 0x4b, 0x05, 0x06, 0, 0, 0, 0, 2, 0, 2, 0, 0, 0, 0, 0, 7, 0, 0, 0, 0, 0]

/-- `zip_open` on an archive without comment. -/
theorem zip_open_one_entry :
    EndRecord (oneEntry []) 47 ∧ ((∃ fp m', zipOpen [97] ⟨worldOf [[97]] (oneEntry []),
      fun _ => .good, 0⟩ = (some (some ⟨fp, rd16 (oneEntry []) (47 + 10),
        rd32 (oneEntry []) (47 + 16)⟩), m')) ↔
    ∃ q, LastSignature (oneEntry []) q ∧ rd16 (oneEntry []) (q + 10) =
      rd16 (oneEntry []) (47 + 10) ∧
      rd32 (oneEntry []) (q + 16) = rd32 (oneEntry []) (47 + 16)) :=
  ⟨⟨by decide, by decide, by decide, by decide⟩,
    zip_open_right_iff ⟨by decide, by decide, by decide, by decide⟩ _ (fun _ => ⟨rfl, rfl⟩)
      (holding_worldOf _ _)⟩

/-- `zip_open` takes two entries at offset 7 from the comment of an archive with one entry at
offset 0. -/
theorem zip_open_takes_comment :
    (∃ e, CentralRecords (oneEntry endRecordComment) 0 [e] 47) ∧
    EndRecord (oneEntry endRecordComment) 47 ∧
    rd16 (oneEntry endRecordComment) (47 + 10) = 1 ∧
    rd32 (oneEntry endRecordComment) (47 + 16) = 0 ∧
    ((zipOpen [97]).run (fun _ => .good) (worldOf [[97]] (oneEntry endRecordComment))).1 =
      some (some ⟨⟨[[97]], 91, false⟩, 2, 7⟩) := by
  have hrecord : CentralRecord (oneEntry endRecordComment) 0 _ :=
    ⟨by decide, by decide, by decide, by decide, by decide, by decide, by decide, rfl⟩
  exact ⟨⟨_, .cons hrecord (.nil _)⟩, ⟨by decide, by decide, by decide, by decide⟩, by decide,
    by decide, rfl⟩

end Asnx.Installer
