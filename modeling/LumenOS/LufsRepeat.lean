import LumenOS.FileScripts
import LumenOS.LufsTotality

/-!
# Extracting an image again

What `main` does to the files is a script fixed by the image, the output
directory and the working directory: the entries handled do not depend on what
is there. So an extraction that ended can be repeated, wherever its entries'
paths have led.
-/

namespace LumenOS.LufsRepeat

open LumenOS.ByteMemory LumenOS.FileTree LumenOS.FileScripts LumenOS.LufsModel
open LumenOS.LufsConfinement LumenOS.LufsTotality

set_option autoImplicit false

theorem entry_scripted (image : List Byte) (cwd : List Text) (handled : Text × TableEntry) :
    Scripted fun fs => (extractVisitor image cwd).visit handled.1 handled.2 fs := by
  have above := makedirs_scripted cwd (dirname (osJoin handled.1 handled.2.name))
  have here := makedirs_scripted cwd (osJoin handled.1 handled.2.name)
  have file := write_scripted (resolve cwd (osJoin handled.1 handled.2.name))
    (readFileData image handled.2)
  unfold extractVisitor
  dsimp only
  split_ifs
  · exact scripted_bind above file
  · exact here

theorem extraction_scripted (image : List Byte) (cwd : List Text) (fuel maxEntries offset : Nat)
    (count : Int) (basePath : Text) :
    Scripted fun fs =>
      (extractAll image cwd fuel maxEntries offset count basePath fs).map Walk.effect := by
  have performed : ∀ fs,
      (extractAll image cwd fuel maxEntries offset count basePath fs).map Walk.effect =
        (handledEntries image fuel maxEntries offset count basePath).bind
          (performAll (extractVisitor image cwd).visit fs) :=
    fun fs => perform_runs (extractVisitor image cwd).visit fs image fuel maxEntries offset count
      basePath
  simp only [performed]
  cases handledEntries image fuel maxEntries offset count basePath with
  | none => exact Or.inl fun _ => rfl
  | some entries => exact scripted_all (entry_scripted image cwd) entries

/-- `main` prints the same whatever is there, and its effect is a script. -/
theorem main_scripted (fuel : Nat) (cwd : List Text) (outdir : Text) (image : List Byte) :
    ∃ lines operation, Scripted operation ∧
      ∀ fs, main fuel cwd outdir image fs = (operation fs).map fun left => (lines, left) := by
  have idle : Scripted some := Or.inr ⟨[], fun _ => rfl⟩
  have fails : Scripted fun _ => none := Or.inl fun _ => rfl
  by_cases magic : image.take 4 = [0x4C, 0x75, 0x46, 0x53]
  · by_cases whole : (readAt image 4 4).length = 4
    · by_cases empty : entryCount image = 0
      · refine ⟨["=== Filesystem metadata ===".toList,
          "Entry count: ".toList ++ (toString (entryCount image)).toList] ++
          ["No entries found in the filesystem.".toList], some, idle, fun fs => ?_⟩
        rw [main, if_neg (not_not_intro magic), if_neg (not_not_intro whole)]
        dsimp only
        exact if_pos empty
      · simp only [main_accepted magic whole empty]
        cases (printTree image fuel (entryCount image - 1) sectorSize (entryCount image)).map
            Walk.effect with
        | none => exact ⟨[], fun _ => none, fails, fun _ => rfl⟩
        | some lines =>
            have extracts := extraction_scripted image cwd fuel (entryCount image - 1) sectorSize
              (entryCount image) outdir
            refine ⟨report image outdir lines, _,
              scripted_bind (makedirs_scripted cwd outdir) extracts, fun fs => ?_⟩
            rw [Option.bind_some, Option.map_bind]
            rfl
    · refine ⟨[], fun _ => none, fails, fun fs => ?_⟩
      rw [main, if_neg (not_not_intro magic), if_pos whole]
      rfl
  · refine ⟨["Not a valid LuFS image.".toList], some, idle, fun fs => ?_⟩
    rw [main, if_pos magic]
    rfl

/-- Whatever the image and the files: once extracted, extracting the same bytes
again says the same and changes nothing. The image is no file the first run has
written. -/
theorem extraction_repeats (fuel : Nat) (cwd : List Text) (outdir : Text) (image : List Byte)
    (fs final : FileSystem) (lines : List Text)
    (ran : main fuel cwd outdir image fs = some (lines, final)) :
    main fuel cwd outdir image final = some (lines, final) := by
  obtain ⟨printed, operation, scripted, does⟩ := main_scripted fuel cwd outdir image
  rw [does] at ran ⊢
  obtain ⟨left, done, same⟩ := Option.map_eq_some_iff.mp ran
  obtain ⟨rfl, rfl⟩ := Prod.mk.inj same
  rw [scripted_repeats scripted done]
  rfl

theorem extraction_repeats_sample :
    ∃ lines final,
      main 4 [['w']] ['o'] nestedImage workFiles = some (lines, final) ∧
      main 4 [['w']] ['o'] nestedImage final = some (lines, final) := by
  have ends : (main 4 [['w']] ['o'] nestedImage workFiles).isSome = true := by
    decide +kernel
  obtain ⟨⟨lines, final⟩, ran⟩ := Option.isSome_iff_exists.mp ends
  exact ⟨lines, final, ran,
    extraction_repeats 4 [['w']] ['o'] nestedImage workFiles final lines ran⟩

end LumenOS.LufsRepeat
