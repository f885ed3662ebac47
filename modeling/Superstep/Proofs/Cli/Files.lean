import Mathlib.Data.List.Basic
import Superstep.Cli.Files
import Superstep.Proofs.Graph.Builder

/-!
# Writing a file and reading it

The steps of a path up to its last lead from folder to folder, and on this way it does not matter
which files there are (`steps_congr`). So a write ends up in the folder in which a later read of the
same path looks for the file.

Result: `read_of_write`, what is read at a path after a write to it is what was written.
-/

namespace Superstep.Cli.Folder

variable {folder folder' : Folder} {place place' : Place}

/-- A step from one folder to another does not depend on the files. -/
theorem follow_congr {step : String} (h : folder.follow place step = .ok place')
    (hfolder : ∀ content, place' ≠ .file content) : folder'.follow place step = .ok place' := by
  unfold follow at h ⊢
  cases place with
  | file content => cases h
  | inside =>
    dsimp only at h ⊢
    split_ifs at h ⊢
    · exact h
    · exact h
    · split at h
      · exact absurd (Except.ok.inj h).symm (hfolder _)
      · cases h
  | outside =>
    dsimp only at h ⊢
    split_ifs at h ⊢
    · exact h
    · exact h

theorem steps_of_file {content : String} {steps : List String}
    (h : steps.foldlM folder.follow (.file content) = .ok place) : place = .file content := by
  cases steps with
  | nil => exact (Except.ok.inj h).symm
  | cons step steps => cases h

/-- Which files there are does not matter on the way to a folder. -/
theorem steps_congr {steps : List String} (h : steps.foldlM folder.follow place = .ok place')
    (hfolder : ∀ content, place' ≠ .file content) :
    steps.foldlM folder'.follow place = .ok place' := by
  induction steps generalizing place with
  | nil => exact h
  | cons step steps ih =>
    rw [List.foldlM_cons] at h ⊢
    cases hstep : folder.follow place step with
    | error reason => simp [hstep, bind, Except.bind] at h
    | ok next =>
      rw [hstep] at h
      have hnext : ∀ content, next ≠ .file content := by
        rintro content rfl
        exact hfolder content (steps_of_file h)
      rw [follow_congr hstep hnext]
      exact ih h

/-- A write that succeeds has gone to a name in the folder to which the steps before it lead. What
    is written outside of the folder is lost. -/
structure Wrote (folder : Folder) (path content : String) (folder' : Folder) (before : List String)
    (name : String) (place : Place) : Prop where
  check : checkPath path = .ok ()
  file : (Path.ofString path).endsInSlash = false
  steps : (Path.ofString path).steps = before ++ [name]
  reached : before.foldlM folder.follow (start (Path.ofString path)) = .ok place
  isFolder : ∀ held, place ≠ .file held
  named : isDots name = false ∧ name.utf8ByteSize ≤ nameLimit
  inside : place = .inside → folder' = folder.put name content

theorem wrote_of_write {path content : String} (h : folder.write path content = .ok folder') :
    ∃ before name place, Wrote folder path content folder' before name place := by
  obtain ⟨⟨⟩, hcheck, h⟩ := exists_of_bind_eq_ok h
  dsimp only at h
  split at h
  · cases h
  · next name hlast =>
    obtain ⟨before, hsteps⟩ := List.getLast?_eq_some_iff.1 hlast
    obtain ⟨place, hreached, h⟩ := exists_of_bind_eq_ok h
    rw [hsteps, List.dropLast_concat] at hreached
    split at h
    · cases h
    · next hfolder =>
      split at h
      · cases h
      · next hname =>
        simp only [Bool.or_eq_true, not_or, Bool.not_eq_true] at hname
        split at h
        · cases h
        · next hlong =>
          refine ⟨before, name, place, hcheck, hname.2, hsteps, hreached, hfolder,
            ⟨hname.1, Nat.le_of_not_lt hlong⟩, ?_⟩
          rintro rfl
          exact (Except.ok.inj h).symm

/-- What is read at a path after a write to it, if it can be read, is what was written. -/
theorem read_of_write {path content : String} (h : folder.write path content = .ok folder')
    {bytes : List UInt8} (hread : folder'.read path = .ok bytes) :
    bytes = content.toUTF8.toList := by
  obtain ⟨before, name, place, hwrote⟩ := wrote_of_write h
  have hreached : before.foldlM folder'.follow (start (Path.ofString path)) = .ok place :=
    steps_congr hwrote.reached hwrote.isFolder
  have hdots : name ≠ "." ∧ name ≠ ".." := by simpa [isDots] using hwrote.named.1
  have hlong : ¬ name.utf8ByteSize > nameLimit := Nat.not_lt.2 hwrote.named.2
  obtain ⟨_, -, hread⟩ := exists_of_bind_eq_ok hread
  obtain ⟨last, hlast, hread⟩ := exists_of_bind_eq_ok hread
  rw [hwrote.file, if_neg Bool.false_ne_true, hwrote.steps, List.foldlM_append, hreached] at hlast
  obtain ⟨last, hlast, ⟨⟩⟩ := exists_of_bind_eq_ok (x := folder'.follow place name) hlast
  unfold follow at hlast
  cases place with
  | file held => exact absurd rfl (hwrote.isFolder held)
  | inside =>
    rw [hwrote.inside rfl] at hlast
    simp only [hdots, hlong, get?_put, if_false] at hlast
    obtain rfl := Except.ok.inj hlast
    exact (Except.ok.inj hread).symm
  | outside =>
    simp only [hdots, hlong, if_false] at hlast
    cases hlast

end Superstep.Cli.Folder
