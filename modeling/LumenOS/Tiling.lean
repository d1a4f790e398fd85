import Mathlib.Data.List.Basic

/-!
# Ranges that tile a region

A range is an offset and a size. Ranges that follow one another from the start of
a region to its end cover each of its positions once. Empty ranges may stand
anywhere between the others.
-/

namespace LumenOS.Tiling

set_option autoImplicit false

def Tiles : Nat → List (Nat × Nat) → Nat → Prop
  | start, [], stop => start = stop
  | start, range :: ranges, stop => range.1 = start ∧ Tiles (start + range.2) ranges stop

structure Covers (start : Nat) (ranges : List (Nat × Nat)) (stop : Nat) : Prop where
  tiles : Tiles start ranges stop
  apart : ranges.Pairwise fun first second => first.1 + first.2 ≤ second.1
  covers : ∀ position, start ≤ position ∧ position < stop ↔
    ∃ range ∈ ranges, range.1 ≤ position ∧ position < range.1 + range.2

variable {start stop : Nat} {ranges : List (Nat × Nat)}

theorem tiles_le (tiles : Tiles start ranges stop) : start ≤ stop := by
  induction ranges generalizing start with
  | nil => exact Nat.le_of_eq tiles
  | cons range ranges ih => exact Nat.le_trans (Nat.le_add_right _ _) (ih tiles.2)

theorem tiles_behind (tiles : Tiles start ranges stop) : ∀ range ∈ ranges, start ≤ range.1 := by
  induction ranges generalizing start with
  | nil => simp
  | cons range ranges ih =>
      intro other member
      rcases List.mem_cons.mp member with rfl | later
      · exact Nat.le_of_eq tiles.1.symm
      · exact Nat.le_trans (Nat.le_add_right _ _) (ih tiles.2 other later)

theorem tiles_apart (tiles : Tiles start ranges stop) :
    ranges.Pairwise fun first second => first.1 + first.2 ≤ second.1 := by
  induction ranges generalizing start with
  | nil => exact List.Pairwise.nil
  | cons range ranges ih =>
      apply List.Pairwise.cons
      · rw [tiles.1]
        exact tiles_behind tiles.2
      · exact ih tiles.2

theorem tiles_cover (tiles : Tiles start ranges stop) (position : Nat) :
    start ≤ position ∧ position < stop ↔
      ∃ range ∈ ranges, range.1 ≤ position ∧ position < range.1 + range.2 := by
  induction ranges generalizing start with
  | nil =>
      have same : start = stop := tiles
      simp
      omega
  | cons range ranges ih =>
      have rest := tiles_le tiles.2
      have first := tiles.1
      have later := ih tiles.2
      rw [List.exists_mem_cons_iff, ← later, first]
      omega

theorem Tiles.covers (tiles : Tiles start ranges stop) : Covers start ranges stop :=
  ⟨tiles, tiles_apart tiles, tiles_cover tiles⟩

end LumenOS.Tiling
