import Asnx.Installer.Visiting

/-!
# What the helpers leave alone

Most functions of the installer take no notes, and change no files but a few of their own. `Stays`
says which; what a function may change is a set of paths.
-/

namespace Asnx.Installer

open Interrupted Files

/-- No note has been taken. -/
def SameNotes (m m' : Memory) : Prop := m'.notes = m.notes

instance : Std.Refl SameNotes := ⟨fun _ => rfl⟩

instance : IsTrans Memory SameNotes := ⟨fun _ _ _ h h' => Eq.trans h' h⟩

section Helpers

variable {K : Set Path} {α : Type} {P : Assertion} {p : Install α}

/-- A program keeps what does not depend on the files it may change. -/
theorem triple_of_stays (h : Stays K SameNotes p)
    (hP : ∀ files files' notes, (∀ q, q ∉ K → files' q = files q) → P files notes →
      P files' notes) :
    Triple (At P) p (fun _ => At P) (At P) :=
  h.keeps fun v v' hw hv => by
    unfold At
    rw [hw.rest]
    exact hP _ _ _ hw.files hv

/-- A program that changes no files keeps what is said of files and notes. -/
theorem triple_of_stays_empty (h : Stays ∅ SameNotes p) :
    Triple (At P) p (fun _ => At P) (At P) :=
  triple_of_stays h fun files files' notes hfiles hP => by
    rwa [show files' = files from funext fun q => hfiles q id]

/-- A change of the memory that keeps the notes. -/
theorem stays_modifyMemory {f : Memory → Memory} (h : ∀ m, (f m).notes = m.notes) :
    Stays K SameNotes (modifyMemory f) :=
  stays_update fun w => ⟨rfl, h w.rest⟩

theorem stays_fails {format : String} {args : List Arg} : Stays K SameNotes (fails format args) :=
  stays_bind (stays_modifyMemory fun _ => rfl) fun _ => stays_pure _

/-- The file that `verify_install_location_writable` writes and removes. -/
def probePath : Path := resolve (inDataRoot (bytes ".installer_write_test.tmp"))

/-- Making directories changes no file. -/
theorem stays_createDirectories {done rest : Bytes} :
    Stays K SameNotes (createDirectories done rest) := by
  induction rest generalizing done with
  | nil => exact stays_pure _
  | cons c rest ih =>
      unfold createDirectories
      refine moves_ite (fun _ => ih) fun _ => stays_bind stays_mkdir fun r => ?_
      split
      · exact ih
      · exact ih
      · exact stays_fails

/-- So do the directories above a file. -/
theorem stays_createParentDirectories {filename : Bytes} :
    Stays K SameNotes (createParentDirectories filename) :=
  moves_ite (fun _ => stays_fails) fun _ => stays_createDirectories

end Helpers

end Asnx.Installer
