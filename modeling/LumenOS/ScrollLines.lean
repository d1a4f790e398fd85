import LumenOS.BackspaceJoin
import Mathlib.Logic.Function.Iterate

/-!
# Scrolling by several lines

Fewer lines than the screen has are moved up and NUL cells put below them, as
by so many single scrolls. From 25 lines on the screen is filled with spaces
instead, which a single scroll never leaves behind.
-/

namespace LumenOS.ScrollLines

open LumenOS.ByteMemory LumenOS.StringModel LumenOS.ConsoleModel LumenOS.TerminalRefinement
open LumenOS.BackspaceJoin

set_option autoImplicit false

theorem cell_congr {left right : Memory} {row col otherRow otherCol : Nat}
    (same : ∀ byte, byte < 2 → readByte left (cellAddress row col + byte) =
      readByte right (cellAddress otherRow otherCol + byte)) :
    cell left row col = cell right otherRow otherCol := by
  apply congrArg decodeLE
  exact read_bytes_congr same

section Cells

variable (memory : Memory) {row col : Nat} (rowBound : row < vgaHeight) (colBound : col < vgaWidth)

include rowBound colBound

theorem cell_blank_rows (start count value : Nat) (fits : start + count ≤ vgaHeight) :
    cell ((List.range count).foldl
        (fun memory i => blankCells memory ((start + i) * vgaWidth) vgaWidth value) memory)
        row col =
      if start ≤ row ∧ row < start + count then u16 value else cell memory row col := by
  have width : vgaWidth = 80 := rfl
  have height : vgaHeight = 25 := rfl
  induction count with
  | zero =>
      have outside : ¬ (start ≤ row ∧ row < start + 0) := by omega
      rw [if_neg outside]
      rfl
  | succ count ih =>
      rw [List.range_succ, List.foldl_append]
      simp only [List.foldl_cons, List.foldl_nil, width]
      rw [cell_blank _ rowBound colBound _ _ _ (by rw [width, height]; omega)]
      rw [width] at ih
      rw [ih (by omega)]
      split_ifs <;> first | rfl | omega

theorem moved_byte (lines : Nat) (few : lines < vgaHeight) (byte : Nat) (bound : byte < 2) :
    readByte (memmove memory vgaAddress (vgaAddress + 2 * (lines * vgaWidth))
        ((vgaHeight - lines) * vgaWidth * 2)) (cellAddress row col + byte) =
      if row + lines < vgaHeight then readByte memory (cellAddress (row + lines) col + byte)
      else readByte memory (cellAddress row col + byte) := by
  have width : vgaWidth = 80 := rfl
  have height : vgaHeight = 25 := rfl
  have base : vgaAddress = 753664 := rfl
  have size : (vgaHeight - lines) * vgaWidth * 2 = (25 - lines) * 160 := by
    rw [width, height, Nat.mul_assoc]
  have source : vgaAddress + 2 * (lines * vgaWidth) = vgaAddress + lines * 160 := by
    rw [width]
    omega
  have here := cell_address_bound row col rowBound colBound
  have address : cellAddress row col = vgaAddress + row * 160 + col * 2 := by
    rw [cellAddress, width]
    omega
  have moved := memmove_moved memory vgaAddress (vgaAddress + lines * 160) ((25 - lines) * 160)
    (by omega) (by omega)
  rw [size, source]
  split_ifs with inside
  · have copied := moved.copied (row * 160 + col * 2 + byte) (Nat.zero_le _) (by omega)
    have place : vgaAddress + (row * 160 + col * 2 + byte) = cellAddress row col + byte := by
      omega
    have target : vgaAddress + lines * 160 + (row * 160 + col * 2 + byte) =
        cellAddress (row + lines) col + byte := by
      rw [cellAddress, width]
      omega
    rwa [place, target] at copied
  · apply moved.kept _ (by omega)
    omega

theorem cell_move (lines : Nat) (few : lines < vgaHeight) :
    cell (memmove memory vgaAddress (vgaAddress + 2 * (lines * vgaWidth))
        ((vgaHeight - lines) * vgaWidth * 2)) row col =
      if row + lines < vgaHeight then cell memory (row + lines) col else cell memory row col := by
  have moved := moved_byte memory rowBound colBound lines few
  split_ifs with inside
  · apply cell_congr
    intro byte bound
    rw [moved byte bound, if_pos inside]
  · apply cell_congr
    intro byte bound
    rw [moved byte bound, if_neg inside]

end Cells

section Scrolls

variable (console : Console) {row col : Nat} (rowBound : row < vgaHeight)
  (colBound : col < vgaWidth)

include rowBound colBound

theorem cell_scroll (lines : Nat) (few : lines < vgaHeight) :
    cell (vgaScroll console lines).memory row col =
      if row + lines < vgaHeight then cell console.memory (row + lines) col else 0x0700 := by
  have height : vgaHeight = 25 := rfl
  rw [vgaScroll, if_neg (by omega)]
  dsimp only
  rw [cell_blank_rows _ rowBound colBound (vgaHeight - lines) lines 0x0700 (by omega),
    cell_move _ rowBound colBound lines few]
  by_cases inside : row + lines < vgaHeight
  · rw [if_neg (by omega), if_pos inside, if_pos inside]
  · rw [if_pos (by omega), if_neg inside]
    rfl

theorem cell_scroll_all (lines : Nat) (many : vgaHeight ≤ lines) :
    cell (vgaScroll console lines).memory row col = 0x0720 := by
  have width : vgaWidth = 80 := rfl
  have height : vgaHeight = 25 := rfl
  have size : vgaWidth * vgaHeight = 2000 := rfl
  rw [vgaScroll, if_pos many]
  dsimp only
  rw [cell_blank _ rowBound colBound 0 _ 0x0720 (by omega), if_pos (by omega)]
  rfl

theorem cell_scroll_single (lines : Nat) :
    cell ((fun console => vgaScroll console 1)^[lines] console).memory row col =
      if row + lines < vgaHeight then cell console.memory (row + lines) col else 0x0700 := by
  have height : vgaHeight = 25 := rfl
  induction lines generalizing row with
  | zero =>
      rw [if_pos (show row + 0 < vgaHeight from rowBound)]
      rfl
  | succ lines ih =>
      rw [Function.iterate_succ_apply', cell_scroll _ rowBound colBound 1 (by decide)]
      by_cases last : row + 1 < vgaHeight
      · rw [if_pos last, ih last, Nat.add_assoc, Nat.add_comm 1]
      · rw [if_neg last, if_neg (by omega)]

end Scrolls

def SameScreen (left right : Memory) : Prop :=
  ∀ row col, row < vgaHeight → col < vgaWidth → cell left row col = cell right row col

theorem same_screen_corner {left right : Memory} (same : SameScreen left right) :
    cell left 0 0 = cell right 0 0 := same 0 0 (by decide) (by decide)

theorem scroll_lines_same (console : Console) (lines : Nat) :
    SameScreen (vgaScroll console lines).memory
        ((fun console => vgaScroll console 1)^[lines] console).memory ↔ lines < 25 := by
  have height : vgaHeight = 25 := rfl
  constructor
  · intro same
    by_contra many
    have corner := same_screen_corner same
    rw [cell_scroll_all console (by decide) (by decide) lines (by omega),
      cell_scroll_single console (by decide) (by decide) lines, if_neg (by omega)] at corner
    exact absurd corner (by decide)
  · intro few row col rowBound colBound
    rw [cell_scroll console rowBound colBound lines few,
      cell_scroll_single console rowBound colBound lines]

/-- Two scrolls one after the other are one by the sum, unless the sum clears
the screen and the second alone does not. -/
theorem scroll_twice_same (console : Console) (first second : Nat) :
    SameScreen (vgaScroll (vgaScroll console first) second).memory
        (vgaScroll console (first + second)).memory ↔
      first + second < 25 ∨ second = 0 ∨ 25 ≤ second := by
  have height : vgaHeight = 25 := rfl
  constructor
  · intro same
    by_contra neither
    obtain ⟨many, some_second, few⟩ : ¬ first + second < 25 ∧ second ≠ 0 ∧ second < 25 := by omega
    have last := same 24 0 (by decide) (by decide)
    rw [cell_scroll_all console (by decide) (by decide) (first + second) (by omega),
      cell_scroll _ (by decide) (by decide) second (by omega), if_neg (by omega)] at last
    exact absurd last (by decide)
  · intro either row col rowBound colBound
    by_cases clears : 25 ≤ second
    · rw [cell_scroll_all _ rowBound colBound second clears,
        cell_scroll_all _ rowBound colBound (first + second) (by omega)]
    rw [cell_scroll _ rowBound colBound second (by omega)]
    by_cases few : first + second < 25
    · rw [cell_scroll _ rowBound colBound (first + second) few]
      by_cases inside : row + second < vgaHeight
      · rw [if_pos inside, cell_scroll _ inside colBound first (by omega), Nat.add_assoc,
          Nat.add_comm second]
      · rw [if_neg inside, if_neg (by omega)]
    · obtain rfl : second = 0 := by omega
      rw [if_pos (show row + 0 < vgaHeight from rowBound)]
      rfl

/-- Scrolling by some lines is so many single scrolls exactly below the height
of the screen; two scrolls make one by the sum exactly where the sum is below
the height too, or the second scroll does nothing or clears the screen. -/
theorem scroll_lines_iff (console : Console) (lines : Nat) :
    (SameScreen (vgaScroll console lines).memory
        ((fun console => vgaScroll console 1)^[lines] console).memory ↔ lines < 25) ∧
      ∀ first second, SameScreen (vgaScroll (vgaScroll console first) second).memory
          (vgaScroll console (first + second)).memory ↔
        first + second < 25 ∨ second = 0 ∨ 25 ≤ second :=
  ⟨scroll_lines_same console lines, scroll_twice_same console⟩

/-- Twenty-five lines at once leave spaces where single scrolls leave NUL cells. -/
theorem scroll_all_leaves_spaces :
    cell (vgaScroll (bootConsole fun _ => 0) 25).memory 0 0 = 0x0720 ∧
      cell ((fun console => vgaScroll console 1)^[25] (bootConsole fun _ => 0)).memory 0 0 =
        0x0700 ∧
      ¬ SameScreen (vgaScroll (bootConsole fun _ => 0) 25).memory
        ((fun console => vgaScroll console 1)^[25] (bootConsole fun _ => 0)).memory := by
  refine ⟨?_, ?_, ?_⟩
  · exact cell_scroll_all _ (by decide) (by decide) 25 (by decide)
  · exact cell_scroll_single _ (by decide) (by decide) 25
  · rw [scroll_lines_same]
    decide

end LumenOS.ScrollLines
