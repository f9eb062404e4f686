import Asnx.Installer.Extract

/-!
# Where entries go

The three families of entries that `install_entry_target` selects (`selected_cases`), and what
follows for the targets: they and their `.tmp` siblings lie below `DATA_ROOT`, even where `..` leads
back up, and different names have different targets.
-/

namespace Asnx.Installer

open Files Zlib

/-! ## Paths with `..` -/

/-- A step of a walk through directories: `..` leads back up. -/
def descend (p : Path) (c : Bytes) : Path := if c = bytes ".." then p.dropLast else p ++ [c]

/-- The path that a string leads to when `..` leads back up. -/
def walk (name : Bytes) : Path := (resolve name).foldl descend []

/-- A string leads to something in the directory `root`, at some depth. -/
def Below (root name : Bytes) : Prop := ∃ p, p ≠ [] ∧ walk name = walk root ++ p

theorem foldl_descend {p q : Path} (h : bytes ".." ∉ q) : q.foldl descend p = p ++ q := by
  induction q generalizing p with
  | nil => simp
  | cons c q ih =>
      obtain ⟨hc, hq⟩ := not_or.1 (mt List.mem_cons.2 h)
      have hstep : descend p c = p ++ [c] := if_neg (Ne.symm hc)
      rw [List.foldl_cons, hstep, ih hq, List.append_assoc]
      rfl

/-- A walk that never leads back up. -/
theorem walk_eq_resolve {name : Bytes} (h : bytes ".." ∉ resolve name) : walk name = resolve name :=
  foldl_descend h

/-- The components of a path are parts of the string. -/
theorem infix_of_mem_resolve {name c : Bytes} (h : c ∈ resolve name) : c <:+: name := by
  generalize hn : name.length = n
  induction n using Nat.strong_induction_on generalizing name with
  | _ n ih =>
      by_cases hname : 47 ∈ name
      · obtain ⟨dir, rest, rfl, hdir⟩ := List.eq_append_cons_of_mem hname
        rw [List.length_append, List.length_cons] at hn
        rw [resolve_append, List.mem_append] at h
        rcases h with h | h
        · exact (ih dir.length (by omega) h rfl).trans (List.prefix_append _ _).isInfix
        · have hsuffix : rest <:+ dir ++ 47 :: rest := ⟨dir ++ [47], by simp⟩
          exact (ih rest.length (by omega) h rfl).trans hsuffix.isInfix
      · rw [resolve_name hname] at h
        split at h
        · obtain rfl := List.mem_singleton.1 h
          exact List.infix_refl _
        · cases h

/-! ## The families -/

/-- The names of the libraries that are selected. -/
def selectedLibraries : List Bytes := [libMain, libUnity, libIl2cpp]

/-- What comes behind `DATA_ROOT` in the target of an entry. -/
inductive Selects (name : Bytes) : Bytes → Prop where
  | manifest : name = manifestName → Selects name manifestName
  | asset : bytes "assets/" <+: name → hasTrailingSlash name = false →
      isSafeRelativePath name = true → Selects name name
  | library (lib : Bytes) : name = bytes "lib/arm64-v8a/" ++ lib → lib ∈ selectedLibraries →
      Selects name lib

theorem selectTarget_eq {name target : Bytes} {required required' : Option Required} {m : Message}
    (h : selectTarget name required m = .select target required') : target = inDataRoot name := by
  unfold selectTarget at h
  split at h
  · cases h
  · cases h
    rfl

/-- The families that `install_entry_target` selects. -/
theorem selected_cases {e : ZipEntry} {target : Bytes} {required : Option Required}
    (h : installEntryTarget e = .select target required) :
    ∃ rel, target = inDataRoot rel ∧ Selects e.name rel := by
  unfold installEntryTarget at h
  split at h
  · rename_i hmanifest
    exact ⟨_, selectTarget_eq h, .manifest hmanifest⟩
  split at h
  · rename_i hassets
    split at h
    · cases h
    rename_i hslash
    split at h
    · cases h
    rename_i hsafe
    refine ⟨_, selectTarget_eq h, .asset (List.isPrefixOf_iff_prefix.1 hassets) ?_ ?_⟩
    · exact Bool.eq_false_iff.2 hslash
    · simpa using hsafe
  split at h
  · rename_i hlib
    dsimp only at h
    split at h
    · cases h
    · rename_i hnames
      obtain ⟨lib, hname⟩ := List.isPrefixOf_iff_prefix.1 hlib
      have hdrop : e.name.drop 14 = lib := by
        rw [← hname]
        exact List.drop_left' rfl
      rw [hdrop] at h hnames
      refine ⟨lib, selectTarget_eq h, .library lib hname.symm ?_⟩
      unfold selectedLibraries
      simp only [List.mem_cons, List.not_mem_nil, or_false]
      tauto
  · cases h

/-- Only one family checks its names, but the names of the others are fixed ones. -/
theorem Selects.safe {name rel : Bytes} (h : Selects name rel) : isSafeRelativePath rel = true := by
  cases h with
  | manifest _ => decide
  | asset _ _ hsafe => exact hsafe
  | library lib _ hmem =>
      simp only [selectedLibraries, List.mem_cons, List.not_mem_nil, or_false] at hmem
      rcases hmem with rfl | rfl | rfl <;> decide

/-- The target of a selected entry is no alias of `DATA_ROOT`. -/
theorem Selects.resolve_ne_nil {name rel : Bytes} (h : Selects name rel) : resolve rel ≠ [] := by
  cases h with
  | manifest _ => decide
  | asset hassets _ _ =>
      obtain ⟨rest, rfl⟩ := hassets
      have hsplit : bytes "assets/" ++ rest = bytes "assets" ++ 47 :: rest := by
        have hbytes : bytes "assets/" = bytes "assets" ++ [47] := by decide
        rw [hbytes, List.append_assoc]
        rfl
      have hdir : resolve (bytes "assets") = [bytes "assets"] := by decide
      rw [hsplit, resolve_append, hdir]
      simp
  | library lib _ hmem =>
      simp only [selectedLibraries, List.mem_cons, List.not_mem_nil, or_false] at hmem
      rcases hmem with rfl | rfl | rfl <;> decide

/-- The families do not meet: a target says which name it is for. -/
theorem Selects.name_eq {name name' rel : Bytes} (h : Selects name rel) (h' : Selects name' rel) :
    name = name' := by
  have hfixed : ∀ lib ∈ selectedLibraries, lib ≠ manifestName ∧ ¬ bytes "assets/" <+: lib := by
    decide
  have hmanifest : ¬ bytes "assets/" <+: manifestName := by decide
  cases h with
  | manifest hname =>
      cases h' with
      | manifest hname' => rw [hname, hname']
      | asset hassets _ _ => exact absurd hassets hmanifest
      | library _ _ hmem => exact absurd rfl (hfixed _ hmem).1
  | asset hassets _ _ =>
      cases h' with
      | manifest _ => exact absurd hassets hmanifest
      | asset _ _ _ => rfl
      | library _ _ hmem => exact absurd hassets (hfixed _ hmem).2
  | library lib hname hmem =>
      cases h' with
      | manifest _ => exact absurd rfl (hfixed _ hmem).1
      | asset hassets _ _ => exact absurd hassets (hfixed _ hmem).2
      | library _ hname' _ => rw [hname, hname']

/-! ## Below the runtime directory -/

theorem dotdot_notMem_dataRoot : bytes ".." ∉ resolve dataRoot := by decide

/-- A safe path never leads back up. -/
theorem dotdot_notMem {rel : Bytes} (h : isSafeRelativePath rel = true) :
    bytes ".." ∉ resolve rel := by
  intro hmem
  have hinfix := infix_of_mem_resolve hmem
  simp only [isSafeRelativePath, decide_eq_true_eq] at h
  exact h.2.2.1 hinfix

theorem resolve_inDataRoot (rel : Bytes) : resolve (inDataRoot rel) =
    resolve dataRoot ++ resolve rel :=
  resolve_append dataRoot rel

/-- What never leads back up stays below `DATA_ROOT`. -/
theorem below_dataRoot {rel : Bytes} (hup : bytes ".." ∉ resolve rel) (hne : resolve rel ≠ []) :
    Below dataRoot (inDataRoot rel) := by
  refine ⟨resolve rel, hne, ?_⟩
  rw [walk_eq_resolve dotdot_notMem_dataRoot, walk_eq_resolve, resolve_inDataRoot]
  rw [resolve_inDataRoot, List.mem_append]
  exact not_or.2 ⟨dotdot_notMem_dataRoot, hup⟩

theorem tmpOf_inDataRoot (rel : Bytes) : tmpOf (inDataRoot rel) = inDataRoot (tmpOf rel) := by
  unfold tmpOf inDataRoot
  rw [List.append_assoc, List.cons_append]

/-- The last component of a `.tmp` sibling ends in `.tmp`, so it is not `..` even where the name of
the file ends in a dot. -/
theorem dotdot_notMem_tmpOf {rel : Bytes} (h : bytes ".." ∉ resolve rel) :
    bytes ".." ∉ resolve (tmpOf rel) ∧ resolve (tmpOf rel) ≠ [] := by
  obtain ⟨parent, last, htmp, hrel⟩ := @resolve_suffix rel (bytes ".tmp") (by decide)
    (by decide)
  have hparent : bytes ".." ∉ parent := by
    rcases hrel with hrel | hrel
    · rwa [hrel] at h
    · rw [hrel, List.mem_append] at h
      exact (not_or.1 h).1
  unfold tmpOf
  rw [htmp]
  refine ⟨fun hmem => ?_, by simp⟩
  rcases List.mem_append.1 hmem with hmem | hmem
  · exact hparent hmem
  · have hlength := congrArg List.length (List.mem_singleton.1 hmem)
    have htwo : (bytes "..").length = 2 := by decide
    have hfour : (bytes ".tmp").length = 4 := by decide
    rw [List.length_append] at hlength
    omega

/-- Extraction stays inside the runtime directory and never merges entries: the target of a selected
entry is `DATA_ROOT`, a slash and a relative path without `..` and backslashes, it and its `.tmp`
sibling lie below `DATA_ROOT`, and two entries with one target have one name. -/
theorem targets_inside_and_apart :
    (∀ e target required, installEntryTarget e = .select target required →
      (∃ rel, target = dataRoot ++ 47 :: rel ∧ rel ≠ [] ∧ rel.head? ≠ some 47 ∧
        ¬ bytes ".." <:+: rel ∧ 92 ∉ rel) ∧
      Below dataRoot target ∧ Below dataRoot (tmpOf target)) ∧
    ∀ e e' target required required', installEntryTarget e = .select target required →
      installEntryTarget e' = .select target required' → e.name = e'.name := by
  refine ⟨fun e target required h => ?_, fun e e' target required required' h h' => ?_⟩
  · obtain ⟨rel, rfl, hrel⟩ := selected_cases h
    have hsafe := hrel.safe
    have hup := dotdot_notMem hsafe
    obtain ⟨htmp, htmpne⟩ := dotdot_notMem_tmpOf hup
    refine ⟨⟨rel, rfl, ?_⟩, below_dataRoot hup hrel.resolve_ne_nil, ?_⟩
    · simpa only [isSafeRelativePath, decide_eq_true_eq] using hsafe
    · rw [tmpOf_inDataRoot]
      exact below_dataRoot htmp htmpne
  · obtain ⟨rel, rfl, hrel⟩ := selected_cases h
    obtain ⟨rel', heq, hrel'⟩ := selected_cases h'
    obtain rfl : rel = rel' := (List.cons.inj (List.append_cancel_left heq)).2
    exact hrel.name_eq hrel'

/-- Two entries that are selected: their targets differ as their names do. -/
theorem targets_inside_and_apart_example :
    Below dataRoot (tmpOf (inDataRoot (bytes "assets/a."))) ∧
      ¬ ∃ required, installEntryTarget ⟨bytes "assets/b", 0, 0, 0, 0, 0, 0⟩ =
        .select (inDataRoot (bytes "assets/a.")) required := by
  have hselect : installEntryTarget ⟨bytes "assets/a.", 0, 0, 0, 0, 0, 0⟩ =
      .select (inDataRoot (bytes "assets/a.")) none := by
    rfl
  refine ⟨(targets_inside_and_apart.1 _ _ _ hselect).2.2, ?_⟩
  rintro ⟨required, hother⟩
  have hname := targets_inside_and_apart.2 _ _ _ _ _ hselect hother
  exact absurd hname (by decide)

end Asnx.Installer
