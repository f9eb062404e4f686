import Mathlib.Data.List.AList
import Asnx.Library.Interrupted
import Mathlib.Algebra.Group.Nat.Defs

/-!
# Programs on a file system

The operations of `stdio.h` and their relatives on a file system that may fail at any operation and
lose its power after it. A failing write may have written a part, and a failing flush or close may
have lost one. What programs do to files is specified on a `View`, which maps paths to contents and
forgets the directories (`Triple`, `Within`).

A stream to write to only appends. Directories have size 0, `remove` does not remove them, and
`rename` renames files only; on a platform where it does not replace an existing file that is one of
its failures.
-/

namespace Asnx.Files

open Interrupted

/-- Contents and names. -/
abbrev Bytes := List UInt8

/-- The bytes of a string constant. -/
def bytes (s : String) : Bytes := s.toUTF8.data.toList

/-- A path by its components. -/
abbrev Path := List Bytes

/-- The path that a string names: empty components and `.` lead nowhere. -/
def resolve (name : Bytes) : Path :=
  (name.splitOn 47).filter fun c => c ≠ [] ∧ c ≠ [46]

/-- A file with its content, or a directory. -/
inductive Node where
  | file (content : Bytes)
  | dir
  deriving DecidableEq, Repr

/-- A file system: what each path leads to. -/
abbrev Fs := AList fun _ : Path => Node

/-- The content of the file at a path. -/
def Fs.file (fs : Fs) (p : Path) : Option Bytes :=
  match fs.lookup p with
  | some (.file content) => some content
  | _ => none

/-- There is a directory at a path; the root is one. -/
def Fs.isDir (fs : Fs) (p : Path) : Bool := p = [] ∨ fs.lookup p = some .dir

/-- A file is written. -/
def Fs.put (fs : Fs) (p : Path) (content : Bytes) : Fs := fs.insert p (.file content)

/-- A path is removed. -/
def Fs.delete (fs : Fs) (p : Path) : Fs := fs.erase p

/-- A file system, with the renames that have succeeded in order, and the rest of the world. -/
structure World (γ : Type) where
  fs : Fs
  renames : List (Path × Path)
  rest : γ

/-- The error numbers of the operations. -/
inductive Errno where
  | enoent
  | eexist
  | eisdir
  | eio
  deriving DecidableEq, Repr

/-- What `stat` tells of a path. -/
structure Stat where
  isDir : Bool
  size : Nat
  deriving DecidableEq, Repr

/-- A stream to read from; `err` is its error indicator. -/
structure InFile where
  path : Path
  pos : Nat
  err : Bool

/-- A stream to write to, at its end. -/
structure OutFile where
  path : Path

section Operations

variable {γ : Type}

/-- An operation on the file system, which fails with `eio` if the environment says so. -/
def operation {β : Type} (f : World γ → Except Errno β × World γ) :
    Prog (World γ) (Except Errno β) :=
  step fun d w => if d.fails then (.error .eio, w) else f w

/-- `stat` -/
def stat (name : Bytes) : Prog (World γ) (Except Errno Stat) :=
  operation fun w =>
    (match w.fs.lookup (resolve name) with
    | none => .error .enoent
    | some (.file content) => .ok ⟨false, content.length⟩
    | some .dir => .ok ⟨true, 0⟩, w)

/-- `mkdir` -/
def mkdir (name : Bytes) : Prog (World γ) (Except Errno Unit) :=
  operation fun w =>
    if (w.fs.lookup (resolve name)).isSome then (.error .eexist, w)
    else if w.fs.isDir (resolve name).dropLast then
      (.ok (), { w with fs := w.fs.insert (resolve name) .dir })
    else (.error .enoent, w)

/-- `fopen` for reading -/
def fopenRead (name : Bytes) : Prog (World γ) (Except Errno InFile) :=
  operation fun w =>
    match w.fs.file (resolve name) with
    | none => (.error .enoent, w)
    | some _ => (.ok ⟨resolve name, 0, false⟩, w)

/-- `fopen` for writing: the file is created or emptied. -/
def fopenWrite (name : Bytes) : Prog (World γ) (Except Errno OutFile) :=
  operation fun w =>
    if w.fs.isDir (resolve name) then (.error .eisdir, w)
    else if w.fs.isDir (resolve name).dropLast then
      (.ok ⟨resolve name⟩, { w with fs := w.fs.put (resolve name) [] })
    else (.error .enoent, w)

/-- `fread` of `n` bytes; one that fails reads less. -/
def fread (f : InFile) (n : Nat) : Prog (World γ) (Bytes × InFile) :=
  step fun d w =>
    let whole := (((w.fs.file f.path).getD []).drop f.pos).take n
    let got := if d.fails then whole.take (min d.amount (n - 1)) else whole
    ((got, ⟨f.path, f.pos + got.length, f.err || d.fails⟩), w)

/-- `fseeko` to a position; `none` is not a position. -/
def fseek (f : InFile) (pos : Option Nat) : Prog (World γ) (Option InFile) :=
  step fun d w =>
    match pos with
    | none => (none, w)
    | some pos => (if d.fails then none else some { f with pos := pos }, w)

/-- `fseeko` to the end -/
def fseekEnd (f : InFile) : Prog (World γ) (Option InFile) :=
  step fun d w =>
    (if d.fails then none else some { f with pos := ((w.fs.file f.path).getD []).length }, w)

/-- `ftello`; `none` stands for -1. -/
def ftell (f : InFile) : Prog (World γ) (Option Nat) :=
  step fun d w => (if d.fails then none else some f.pos, w)

/-- `fclose` of a stream to read from -/
def fcloseRead (_ : InFile) : Prog (World γ) Unit := step fun _ w => ((), w)

/-- `fwrite`, and whether it took all the bytes. -/
def fwrite (f : OutFile) (content : Bytes) : Prog (World γ) Bool :=
  step fun d w =>
    match w.fs.file f.path with
    | none => (false, w)
    | some old =>
        if d.fails then
          (false,
            { w with
              fs := w.fs.put f.path (old ++ content.take (min d.amount (content.length - 1))) })
        else (true, { w with fs := w.fs.put f.path (old ++ content) })

/-- The position at the end of a stream to write to. -/
def ftellWrite (f : OutFile) : Prog (World γ) (Option Nat) :=
  step fun d w => (if d.fails then none else some ((w.fs.file f.path).getD []).length, w)

/-- `fflush`, `fsync` or `fclose` of a stream to write to, and whether it succeeded. -/
def flush (f : OutFile) : Prog (World γ) Bool :=
  step fun d w =>
    if d.fails then
      match w.fs.file f.path with
      | none => (false, w)
      | some content => (false, { w with fs := w.fs.put f.path (content.take d.amount) })
    else (true, w)

/-- `remove` -/
def remove (name : Bytes) : Prog (World γ) (Except Errno Unit) :=
  operation fun w =>
    match w.fs.lookup (resolve name) with
    | none => (.error .enoent, w)
    | some .dir => (.error .eisdir, w)
    | some (.file _) => (.ok (), { w with fs := w.fs.delete (resolve name) })

/-- `rename` -/
def rename (src dst : Bytes) : Prog (World γ) (Except Errno Unit) :=
  operation fun w =>
    match w.fs.file (resolve src) with
    | none => (.error .enoent, w)
    | some content =>
        if w.fs.isDir (resolve dst) then (.error .eisdir, w)
        else if w.fs.isDir (resolve dst).dropLast then
          (.ok (), ⟨(w.fs.delete (resolve src)).put (resolve dst) content,
            w.renames ++ [(resolve src, resolve dst)], w.rest⟩)
        else (.error .enoent, w)

end Operations

/-! ## Paths -/

/-- A path behind a directory. -/
theorem resolve_append (a b : Bytes) : resolve (a ++ 47 :: b) = resolve a ++ resolve b := by
  unfold resolve List.splitOn
  rw [List.splitOnP_append_cons a b (by rfl), List.filter_append]

/-- A name without separators. -/
theorem resolve_name {name : Bytes} (h : 47 ∉ name) :
    resolve name = if name ≠ [] ∧ name ≠ [46] then [name] else [] := by
  have hsplit : name.splitOn 47 = [name] := by
    refine List.splitOnP_eq_singleton fun c hc => beq_eq_false_iff_ne.2 ?_
    rintro rfl
    exact h hc
  unfold resolve
  rw [hsplit, List.filter_singleton]
  by_cases hgood : name ≠ [] ∧ name ≠ [46]
  · rw [decide_eq_true hgood, if_pos hgood]
    rfl
  · rw [decide_eq_false hgood, if_neg hgood]
    rfl

/-- A name that is lengthened names a file in the same directory. -/
theorem resolve_suffix (name : Bytes) {suffix : Bytes} (hsep : 47 ∉ suffix)
    (hlong : 1 < suffix.length) :
    ∃ parent last, resolve (name ++ suffix) = parent ++ [last ++ suffix] ∧
      (resolve name = parent ∨ resolve name = parent ++ [last]) := by
  generalize hn : name.length = n
  induction n using Nat.strong_induction_on generalizing name with
  | _ n ih =>
      by_cases hname : 47 ∈ name
      · obtain ⟨dir, rest, rfl, -⟩ := List.eq_append_cons_of_mem hname
        have hshorter : rest.length < n := by
          rw [← hn, List.length_append, List.length_cons]
          omega
        obtain ⟨parent, last, hlonger, hrest⟩ := ih _ hshorter rest rfl
        refine ⟨resolve dir ++ parent, last, ?_, ?_⟩
        · rw [List.append_assoc, List.cons_append, resolve_append, hlonger, List.append_assoc]
        · rw [resolve_append]
          rcases hrest with hrest | hrest
          · exact .inl (by rw [hrest])
          · exact .inr (by rw [hrest, List.append_assoc])
      · have hlonger : name ++ suffix ≠ [] ∧ name ++ suffix ≠ [46] := by
          constructor
          · exact List.append_ne_nil_of_right_ne_nil _ (List.ne_nil_of_length_pos (by omega))
          · intro h
            have hlength := congrArg List.length h
            rw [List.length_append, List.length_singleton] at hlength
            omega
        refine ⟨[], name, ?_, ?_⟩
        · rw [resolve_name (by simp [hname, hsep]), if_pos hlonger]
          rfl
        · rw [resolve_name hname]
          split
          · exact .inr rfl
          · exact .inl rfl

/-- A name and the name lengthened name different files. -/
theorem resolve_suffix_ne (name : Bytes) {suffix : Bytes} (hsep : 47 ∉ suffix)
    (hlong : 1 < suffix.length) : resolve (name ++ suffix) ≠ resolve name := by
  obtain ⟨parent, last, hlonger, hname | hname⟩ := resolve_suffix name hsep hlong
  · rw [hlonger, hname]
    simp
  · rw [hlonger, hname]
    intro h
    have hlast := List.append_cancel_left h
    have hnil := congrArg List.length (List.cons.inj hlast).1
    rw [List.length_append] at hnil
    omega

/-! ## Views -/

/-- What a world holds at every path, without the directories. -/
structure View (γ : Type) where
  files : Path → Option Bytes
  renames : List (Path × Path)
  rest : γ

section Views

variable {γ : Type}

def World.view (w : World γ) : View γ := ⟨w.fs.file, w.renames, w.rest⟩

/-- The view after the file at a path has become `content`, or has gone. -/
def View.set (v : View γ) (p : Path) (content : Option Bytes) : View γ :=
  { v with files := Function.update v.files p content }

/-- The view after a file with the given content has been renamed. -/
def View.move (v : View γ) (src dst : Path) (content : Bytes) : View γ :=
  ⟨Function.update (Function.update v.files src none) dst (some content), v.renames ++ [(src, dst)],
    v.rest⟩

@[simp] theorem view_rest (w : World γ) : w.view.rest = w.rest := rfl

@[simp] theorem view_files (w : World γ) : w.view.files = w.fs.file := rfl

@[simp] theorem view_renames (w : World γ) : w.view.renames = w.renames := rfl

@[simp] theorem set_files (v : View γ) (p : Path) (content : Option Bytes) :
    (v.set p content).files = Function.update v.files p content := rfl

@[simp] theorem set_renames (v : View γ) (p : Path) (content : Option Bytes) :
    (v.set p content).renames = v.renames := rfl

@[simp] theorem set_rest (v : View γ) (p : Path) (content : Option Bytes) :
    (v.set p content).rest = v.rest := rfl

@[simp] theorem move_files (v : View γ) (src dst : Path) (content : Bytes) :
    (v.move src dst content).files =
      Function.update (Function.update v.files src none) dst (some content) := rfl

@[simp] theorem move_renames (v : View γ) (src dst : Path) (content : Bytes) :
    (v.move src dst content).renames = v.renames ++ [(src, dst)] := rfl

@[simp] theorem move_rest (v : View γ) (src dst : Path) (content : Bytes) :
    (v.move src dst content).rest = v.rest := rfl

/-- What a written file holds, and all others. -/
theorem file_put (fs : Fs) (p : Path) (content : Bytes) :
    (fs.put p content).file = Function.update fs.file p (some content) := by
  funext q
  by_cases hq : q = p
  · subst hq
    simp [Fs.put, Fs.file]
  · simp [Fs.put, Fs.file, hq]

/-- What is left after a removal. -/
theorem file_delete (fs : Fs) (p : Path) : (fs.delete p).file = Function.update fs.file p none := by
  funext q
  by_cases hq : q = p
  · subst hq
    simp [Fs.delete, Fs.file]
  · simp [Fs.delete, Fs.file, hq]

/-- A new directory takes no file away. -/
theorem file_insert_dir {fs : Fs} {p : Path} (h : fs.lookup p = none) :
    Fs.file (fs.insert p .dir) = fs.file := by
  funext q
  by_cases hq : q = p
  · subst hq
    simp [Fs.file, h]
  · simp [Fs.file, hq]

/-! ## Specifications on views -/

/-- `Spec` for programs on files, on views. -/
def Triple {α : Type} (P : View γ → Prop) (p : Prog (World γ) α) (Q : α → View γ → Prop)
    (C : View γ → Prop) : Prop :=
  Spec (fun w => P w.view) p (fun a w => Q a w.view) fun w => C w.view

variable {α β : Type} {P P' : View γ → Prop} {Q Q' : α → View γ → Prop} {C C' : View γ → Prop}
  {p : Prog (World γ) α}

/-- A stronger condition before, weaker ones behind and at a cut. -/
theorem Triple.mono (h : Triple P p Q C) (hP : ∀ v, P' v → P v) (hQ : ∀ a v, Q a v → Q' a v)
    (hC : ∀ v, C v → C' v) : Triple P' p Q' C' :=
  Spec.mono h (fun _ => hP _) (fun _ _ => hQ _ _) fun _ => hC _

theorem Triple.pre (h : Triple P p Q C) (hP : ∀ v, P' v → P v) : Triple P' p Q C :=
  h.mono hP (fun _ _ hv => hv) fun _ hv => hv

theorem Triple.post (h : Triple P p Q C) (hQ : ∀ a v, Q a v → Q' a v) : Triple P p Q' C :=
  h.mono (fun _ hv => hv) hQ fun _ hv => hv

/-- Two specifications of one program. -/
theorem Triple.and (h : Triple P p Q C) (h' : Triple P' p Q' C') :
    Triple (fun v => P v ∧ P' v) p (fun a v => Q a v ∧ Q' a v) fun v => C v ∧ C' v :=
  Spec.and h h'

theorem Triple.assume {φ : Prop} (h : φ → Triple P p Q C) :
    Triple (fun v => φ ∧ P v) p Q C :=
  Spec.assume h

/-- A condition with a witness. -/
theorem Triple.exists {ι : Sort*} {P : ι → View γ → Prop} (h : ∀ i, Triple (P i) p Q C) :
    Triple (fun v => ∃ i, P i v) p Q C :=
  Spec.exists h

theorem triple_pure {a : α} (h : ∀ v, P v → Q a v) : Triple P (pure a) Q C :=
  spec_pure fun _ => h _

/-- What follows on a program. -/
theorem triple_bind {q : Prog (World γ) β} {f : β → Prog (World γ) α} {R : β → View γ → Prop}
    (hq : Triple P q R C) (hf : ∀ b, Triple (R b) (f b) Q C) : Triple P (q >>= f) Q C :=
  spec_bind hq hf

/-- Both branches. -/
theorem triple_ite {c : Prop} [Decidable c] {q : Prog (World γ) α} (hp : c → Triple P p Q C)
    (hq : ¬ c → Triple P q Q C) : Triple P (if c then p else q) Q C :=
  spec_ite hp hq

/-- A program that does not go on is only ever cut. -/
theorem triple_hang (h : ∀ v, P v → C v) : Triple P (hang : Prog (World γ) α) Q C :=
  spec_hang fun _ => h _

/-- A change of the rest of the world. -/
theorem triple_update {f : World γ → α × World γ} (h : ∀ w, P w.view → Q (f w).1 (f w).2.view) :
    Triple P (update f) Q C :=
  spec_update h

/-- A step that changes no file. -/
theorem triple_quiet {f : Decision → World γ → α × World γ}
    (h : ∀ d w, P w.view → (f d w).2.view = w.view ∧ Q (f d w).1 w.view ∧ C w.view) :
    Triple P (step f) Q C := by
  refine spec_step fun d w hw => ?_
  obtain ⟨hview, hQ, hC⟩ := h d w hw
  rw [hview]
  exact ⟨hQ, hC⟩

end Views

/-! ## The operations on views -/

section Rules

variable {γ : Type} {P : View γ → Prop} {C : View γ → Prop} {name : Bytes}

/-- An operation that may fail without a change. -/
theorem triple_operation {β : Type} {f : World γ → Except Errno β × World γ}
    {Q : Except Errno β → View γ → Prop} (hfail : ∀ v e, P v → Q (.error e) v ∧ C v)
    (hstep : ∀ w, P w.view → Q (f w).1 (f w).2.view ∧ C (f w).2.view) :
    Triple P (operation f) Q C := by
  refine spec_step fun d w hw => ?_
  split
  · exact hfail _ _ hw
  · exact hstep w hw

/-- What `stat` says of a view. -/
def StatOf (v : View γ) (p : Path) : Except Errno Stat → Prop
  | .ok s => (∃ content, v.files p = some content ∧ s = ⟨false, content.length⟩) ∨
      (v.files p = none ∧ s = ⟨true, 0⟩)
  | .error _ => True

/-- `stat` changes nothing, and tells what is there. -/
theorem triple_stat : Triple P (stat name) (fun r v => StatOf v (resolve name) r ∧ P v) P := by
  refine triple_operation (fun v e hv => ⟨⟨trivial, hv⟩, hv⟩) fun w hw => ⟨⟨?_, hw⟩, hw⟩
  cases hlookup : w.fs.lookup (resolve name) with
  | none => trivial
  | some node =>
      cases node with
      | file content => exact .inl ⟨content, by simp [Fs.file, hlookup], rfl⟩
      | dir => exact .inr ⟨by simp [Fs.file, hlookup], rfl⟩

/-- `mkdir` changes no file. -/
theorem triple_mkdir {Q : Except Errno Unit → View γ → Prop} (h : ∀ v r, P v → Q r v ∧ C v) :
    Triple P (mkdir name) Q C := by
  refine triple_operation (fun v e hv => h v _ hv) fun w hw => ?_
  split
  · exact h _ _ hw
  · rename_i hnone
    split
    · have hview : World.view ⟨w.fs.insert (resolve name) .dir, w.renames, w.rest⟩ = w.view := by
        unfold World.view
        rw [file_insert_dir (by simpa using hnone)]
      rw [hview]
      exact h _ _ hw
    · exact h _ _ hw

/-- Opening for reading fails, or finds the content. -/
theorem triple_fopenRead {Q : Except Errno InFile → View γ → Prop}
    (hfail : ∀ v e, P v → Q (.error e) v ∧ C v)
    (hok : ∀ v content, P v → v.files (resolve name) = some content →
      Q (.ok ⟨resolve name, 0, false⟩) v ∧ C v) : Triple P (fopenRead name) Q C := by
  refine triple_operation hfail fun w hw => ?_
  split
  · exact hfail _ _ hw
  · rename_i content hfile
    exact hok _ content hw hfile

/-- Opening for writing fails, or empties the file. -/
theorem triple_fopenWrite {Q : Except Errno OutFile → View γ → Prop}
    (hfail : ∀ v e, P v → Q (.error e) v ∧ C v)
    (hok : ∀ v, P v → Q (.ok ⟨resolve name⟩) (v.set (resolve name) (some [])) ∧
      C (v.set (resolve name) (some []))) : Triple P (fopenWrite name) Q C := by
  refine triple_operation hfail fun w hw => ?_
  split
  · exact hfail _ _ hw
  · split
    · have hview : World.view ⟨w.fs.put (resolve name) [], w.renames, w.rest⟩ =
          w.view.set (resolve name) (some []) := by
        unfold World.view View.set
        rw [file_put]
      rw [hview]
      exact hok _ hw
    · exact hfail _ _ hw

/-- What `fread` gets is the beginning of what there is, and all of it unless it fails. -/
theorem triple_fread {Q : Bytes × InFile → View γ → Prop} {f : InFile} {n : Nat}
    (h : ∀ v got err, P v → got <+: (((v.files f.path).getD []).drop f.pos).take n →
      (err = false → got = (((v.files f.path).getD []).drop f.pos).take n) →
      Q (got, ⟨f.path, f.pos + got.length, err⟩) v ∧ C v) : Triple P (fread f n) Q C := by
  refine triple_quiet fun d w hw => ⟨rfl, ?_⟩
  dsimp only
  cases hfails : d.fails
  · exact h w.view _ (f.err || false) hw (List.prefix_refl _) fun _ => rfl
  · refine h w.view _ (f.err || true) hw (List.take_prefix _ _) fun herr => ?_
    rw [Bool.or_true] at herr
    cases herr

theorem triple_fseek {Q : Option InFile → View γ → Prop} {f : InFile} {pos : Option Nat}
    (hfail : ∀ v, P v → Q none v ∧ C v)
    (hok : ∀ v n, P v → pos = some n → Q (some { f with pos := n }) v ∧ C v) :
    Triple P (fseek f pos) Q C := by
  refine triple_quiet fun d w hw => ?_
  cases pos with
  | none => exact ⟨rfl, hfail _ hw⟩
  | some n =>
      refine ⟨rfl, ?_⟩
      dsimp only
      split
      · exact hfail _ hw
      · exact hok _ n hw rfl

theorem triple_ftell {Q : Option Nat → View γ → Prop} {f : InFile}
    (h : ∀ v pos, P v → (∀ n, pos = some n → n = f.pos) → Q pos v ∧ C v) :
    Triple P (ftell f) Q C := by
  refine triple_quiet fun d w hw => ⟨rfl, h _ _ hw fun n hn => ?_⟩
  split at hn
  · cases hn
  · exact (Option.some.inj hn).symm

theorem triple_fcloseRead {Q : Unit → View γ → Prop} {f : InFile} (h : ∀ v, P v → Q () v ∧ C v) :
    Triple P (fcloseRead f) Q C :=
  triple_quiet fun _ _ hw => ⟨rfl, h _ hw⟩

theorem triple_chance {Q : Bool → View γ → Prop} (h : ∀ v b, P v → Q b v ∧ C v) :
    Triple P chance Q C :=
  triple_quiet fun _ _ hw => ⟨rfl, h _ _ hw⟩

theorem view_put (w : World γ) (p : Path) (content : Bytes) :
    World.view ⟨w.fs.put p content, w.renames, w.rest⟩ = w.view.set p (some content) := by
  unfold World.view View.set
  rw [file_put]

/-- A write fails, with a part of its bytes written, or succeeds. -/
theorem triple_fwrite {Q : Bool → View γ → Prop} {f : OutFile} {content : Bytes}
    (hfail : ∀ v, P v → Q false v ∧ C v)
    (hpart : ∀ v old n, P v → v.files f.path = some old →
      Q false (v.set f.path (some (old ++ content.take n))) ∧
        C (v.set f.path (some (old ++ content.take n))))
    (hok : ∀ v old, P v → v.files f.path = some old →
      Q true (v.set f.path (some (old ++ content))) ∧ C (v.set f.path (some (old ++ content)))) :
    Triple P (fwrite f content) Q C := by
  refine spec_step fun d w hw => ?_
  split
  · exact hfail _ hw
  · rename_i old hold
    split
    · rw [view_put]
      exact hpart _ old _ hw hold
    · rw [view_put]
      exact hok _ old hw hold

/-- A flush may lose what came last. -/
theorem triple_flush {Q : Bool → View γ → Prop} {f : OutFile}
    (hpart : ∀ v old n, P v → v.files f.path = some old →
      Q false (v.set f.path (some (old.take n))) ∧ C (v.set f.path (some (old.take n))))
    (hsame : ∀ v b, P v → Q b v ∧ C v) : Triple P (flush f) Q C := by
  refine spec_step fun d w hw => ?_
  split
  · split
    · exact hsame _ _ hw
    · rename_i old hold
      rw [view_put]
      exact hpart _ old _ hw hold
  · exact hsame _ _ hw

/-- A removal fails, or removes. -/
theorem triple_remove {Q : Except Errno Unit → View γ → Prop}
    (hfail : ∀ v e, P v → Q (.error e) v ∧ C v)
    (hok : ∀ v content, P v → v.files (resolve name) = some content →
      Q (.ok ()) (v.set (resolve name) none) ∧ C (v.set (resolve name) none)) :
    Triple P (remove name) Q C := by
  refine triple_operation hfail fun w hw => ?_
  split
  · exact hfail _ _ hw
  · exact hfail _ _ hw
  · rename_i content hlookup
    have hview : World.view ⟨w.fs.delete (resolve name), w.renames, w.rest⟩ =
        w.view.set (resolve name) none := by
      unfold World.view View.set
      rw [file_delete]
    rw [hview]
    exact hok _ content hw (by simp [Fs.file, hlookup])

/-- A rename fails, or moves the content in one go. -/
theorem triple_rename {Q : Except Errno Unit → View γ → Prop} {src dst : Bytes}
    (hfail : ∀ v e, P v → Q (.error e) v ∧ C v)
    (hok : ∀ v content, P v → v.files (resolve src) = some content →
      Q (.ok ()) (v.move (resolve src) (resolve dst) content) ∧
        C (v.move (resolve src) (resolve dst) content)) : Triple P (rename src dst) Q C := by
  refine triple_operation hfail fun w hw => ?_
  split
  · exact hfail _ _ hw
  · rename_i content hfile
    split
    · exact hfail _ _ hw
    · split
      · have hview : World.view ⟨(w.fs.delete (resolve src)).put (resolve dst) content,
            w.renames ++ [(resolve src, resolve dst)], w.rest⟩ =
            w.view.move (resolve src) (resolve dst) content := by
          unfold World.view View.move
          rw [file_put, file_delete]
        rw [hview]
        exact hok _ content hw hfile
      · exact hfail _ _ hw

end Rules

/-! ## What a program leaves alone -/

section Stays

variable {γ : Type} {K : Set Path} {ρ : γ → γ → Prop} {α β : Type} {p : Prog (World γ) α}
  {name : Bytes}

/-- Files outside `K` are as they were, and the rest of the world has changed as `ρ` allows. -/
structure Within (K : Set Path) (ρ : γ → γ → Prop) (v v' : View γ) : Prop where
  files : ∀ q, q ∉ K → v'.files q = v.files q
  rest : ρ v.rest v'.rest

/-- The program changes no file outside `K`, and the rest of the world only as `ρ` allows. -/
def Stays (K : Set Path) (ρ : γ → γ → Prop) (p : Prog (World γ) α) : Prop :=
  Moves (fun w w' => Within K ρ w.view w'.view) p

theorem Within.set {v : View γ} [Std.Refl ρ] {q : Path} (hq : q ∈ K) (content : Option Bytes) :
    Within K ρ v (v.set q content) :=
  ⟨fun _ hr => Function.update_of_ne (ne_of_mem_of_not_mem hq hr).symm .., Std.Refl.refl _⟩

theorem Within.refl [Std.Refl ρ] (v : View γ) : Within K ρ v v :=
  ⟨fun _ _ => rfl, Std.Refl.refl _⟩

/-- More paths, and a weaker relation of the rest. -/
theorem Within.mono {K' : Set Path} {ρ' : γ → γ → Prop} {v v' : View γ} (h : Within K ρ v v')
    (hK : K ⊆ K') (hρ : ∀ r r', ρ r r' → ρ' r r') : Within K' ρ' v v' :=
  ⟨fun q hq => h.files q fun hK' => hq (hK hK'), hρ _ _ h.rest⟩

instance [Std.Refl ρ] :
    Std.Refl fun w w' : World γ => Within K ρ w.view w'.view :=
  ⟨fun w => Within.refl w.view⟩

instance [IsTrans γ ρ] :
    IsTrans (World γ) fun w w' => Within K ρ w.view w'.view :=
  ⟨fun _ _ _ h h' => ⟨fun q hq => (h'.files q hq).trans (h.files q hq),
    IsTrans.trans _ _ _ h.rest h'.rest⟩⟩

theorem within_same [Std.Refl ρ] {v v' : View γ} (h : v' = v) : Within K ρ v v' ∧
    Within K ρ v v' := by
  rw [h]
  exact ⟨.refl v, .refl v⟩

theorem within_set [Std.Refl ρ] {v v' : View γ} (h : v' = v) {q : Path} (hq : q ∈ K)
    (content : Option Bytes) : Within K ρ v (v'.set q content) ∧
      Within K ρ v (v'.set q content) := by
  rw [h]
  exact ⟨.set hq content, .set hq content⟩

/-- A program stays within some paths when every view it starts from does. -/
theorem stays_of_triple
    (h : ∀ v, Triple (fun v' => v' = v) p (fun _ => Within K ρ v) (Within K ρ v)) :
    Stays K ρ p :=
  fun m => spec_always.1 (h m.world.view) m rfl

/-- What the moves of a program say of its runs from one view. -/
theorem triple_of_moves {S : View γ → View γ → Prop} (h : Moves (fun w w' => S w.view w'.view) p)
    (v : View γ) :
    Triple (fun v' => v' = v) p (fun _ => S v) (S v) := by
  refine spec_always.2 fun m hm => ?_
  rw [← show m.world.view = v from hm]
  exact h m

/-- A program keeps what does not depend on the files it may change. -/
theorem Stays.keeps (h : Stays K ρ p) {I : View γ → Prop}
    (hI : ∀ v v', Within K ρ v v' → I v → I v') : Triple I p (fun _ => I) I :=
  Moves.keeps h fun _ _ => hI _ _

theorem Stays.mono {K' : Set Path} {ρ' : γ → γ → Prop} (h : Stays K ρ p) (hK : K ⊆ K')
    (hρ : ∀ r r', ρ r r' → ρ' r r') : Stays K' ρ' p :=
  Moves.mono h fun _ _ hw => hw.mono hK hρ

section Sequence

variable [Std.Refl ρ]

theorem stays_pure (a : α) : Stays K ρ (pure a : Prog (World γ) α) := moves_pure a

omit [Std.Refl ρ] in
/-- What follows on a program that stays. -/
theorem stays_bind [IsTrans γ ρ] {q : Prog (World γ) β} {f : β → Prog (World γ) α}
    (hq : Stays K ρ q) (hf : ∀ b, Stays K ρ (f b)) : Stays K ρ (q >>= f) :=
  moves_bind hq hf

omit [Std.Refl ρ] in
theorem stays_update {f : World γ → α × World γ}
    (h : ∀ w, (f w).2.view.files = w.view.files ∧ ρ w.rest (f w).2.rest) : Stays K ρ (update f) :=
  moves_update fun w => ⟨fun q _ => congrFun (h w).1 q, (h w).2⟩

theorem stays_mkdir : Stays K ρ (mkdir (γ := γ) name) :=
  stays_of_triple fun _ => triple_mkdir fun _ _ hv => within_same hv

theorem stays_fopenRead : Stays K ρ (fopenRead (γ := γ) name) :=
  stays_of_triple fun _ => triple_fopenRead (fun _ _ hv => within_same hv)
    fun _ _ hv _ => within_same hv

theorem stays_fread {f : InFile} {n : Nat} : Stays K ρ (fread (γ := γ) f n) :=
  stays_of_triple fun _ => triple_fread fun _ _ _ hv _ _ => within_same hv

theorem stays_fseek {f : InFile} {pos : Option Nat} : Stays K ρ (fseek (γ := γ) f pos) :=
  stays_of_triple fun _ => triple_fseek (fun _ hv => within_same hv)
    fun _ _ hv _ => within_same hv

theorem stays_fcloseRead {f : InFile} : Stays K ρ (fcloseRead (γ := γ) f) :=
  stays_of_triple fun _ => triple_fcloseRead fun _ hv => within_same hv

theorem stays_remove (h : resolve name ∈ K) : Stays K ρ (remove (γ := γ) name) :=
  stays_of_triple fun _ => triple_remove (fun _ _ hv => within_same hv)
    fun _ _ hv _ => within_set hv h _

theorem stays_stat : Stays K ρ (stat (γ := γ) name) :=
  stays_of_triple fun _ => triple_operation (fun _ _ hv => within_same hv) fun _ hw =>
    within_same hw

theorem stays_ftell {f : InFile} : Stays K ρ (ftell (γ := γ) f) :=
  stays_of_triple fun _ => triple_ftell fun _ _ hv _ => within_same hv

theorem stays_fseekEnd {f : InFile} : Stays K ρ (fseekEnd (γ := γ) f) :=
  stays_of_triple fun _ => triple_quiet fun _ _ hw => ⟨rfl, within_same hw⟩

theorem stays_ftellWrite {f : OutFile} : Stays K ρ (ftellWrite (γ := γ) f) :=
  stays_of_triple fun _ => triple_quiet fun _ _ hw => ⟨rfl, within_same hw⟩

theorem stays_chance : Stays K ρ (chance : Prog (World γ) Bool) :=
  stays_of_triple fun _ => triple_chance fun _ _ hv => within_same hv

/-- A write stays at its file. -/
theorem stays_fwrite {f : OutFile} {content : Bytes} (h : f.path ∈ K) :
    Stays K ρ (fwrite (γ := γ) f content) :=
  stays_of_triple fun _ => triple_fwrite (fun _ hv => within_same hv)
    (fun _ _ _ hv _ => within_set hv h _) fun _ _ hv _ => within_set hv h _

theorem stays_flush {f : OutFile} (h : f.path ∈ K) : Stays K ρ (flush (γ := γ) f) :=
  stays_of_triple fun _ => triple_flush (fun _ _ _ hv _ => within_set hv h _)
    fun _ _ hv => within_same hv

/-- A rename stays at its two paths. -/
theorem stays_rename {src dst : Bytes} (hsrc : resolve src ∈ K) (hdst : resolve dst ∈ K) :
    Stays K ρ (rename (γ := γ) src dst) := by
  refine stays_of_triple fun v =>
    triple_rename (fun _ _ hv => within_same hv) fun v' content hv _ => ?_
  have hmoved : Within K ρ v (v'.move (resolve src) (resolve dst) content) := by
    refine ⟨fun q hq => ?_, ?_⟩
    · rw [move_files, Function.update_of_ne (ne_of_mem_of_not_mem hdst hq).symm,
        Function.update_of_ne (ne_of_mem_of_not_mem hsrc hq).symm, hv]
    · rw [move_rest, hv]
      exact Std.Refl.refl _
  exact ⟨hmoved, hmoved⟩

/-- A file that has been opened to write to, and what is written to it. -/
theorem stays_opened [IsTrans γ ρ] {f : Except Errno OutFile → Prog (World γ) α}
    (h : resolve name ∈ K)
    (herror : ∀ e, Stays K ρ (f (.error e))) (hok : Stays K ρ (f (.ok ⟨resolve name⟩))) :
    Stays K ρ (fopenWrite name >>= f) := by
  refine moves_bind_of (φ := fun r => ∀ dst, r = .ok dst → dst = ⟨resolve name⟩) ?_ ?_
    fun r hr => ?_
  · exact stays_of_triple fun _ => triple_fopenWrite (fun _ _ hv => within_same hv)
      fun _ hv => within_set hv h _
  · refine Spec.mono (P := fun _ => True) (triple_fopenWrite (P := fun _ : View γ => True)
      (Q := fun r _ => ∀ dst, r = .ok dst → dst = ⟨resolve name⟩) (C := fun _ => True)
      (fun _ _ _ => ⟨nofun, trivial⟩) fun _ _ => ⟨fun dst hdst => ?_, trivial⟩) (fun _ h => h)
      (fun _ _ h => h) fun _ h => h
    exact (Except.ok.inj hdst).symm
  · cases r with
    | error e => exact herror e
    | ok dst =>
        rw [hr dst rfl]
        exact hok

end Sequence

end Stays

end Asnx.Files
