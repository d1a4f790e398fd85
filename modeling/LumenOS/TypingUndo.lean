import LumenOS.BackspaceJoin
import Mathlib.Logic.Function.Iterate

/-!
# Backspace against typing

Typing wraps to the next row with the last column still empty, and Backspace
goes back through that column as if it held a character. Every wrap costs one
Backspace more than there are characters.
-/

namespace LumenOS.TypingUndo

open LumenOS.ByteMemory LumenOS.ConsoleModel LumenOS.KeyboardModel LumenOS.CursorBounds
open LumenOS.TerminalRefinement LumenOS.BackspaceJoin LumenOS.StepRuns

set_option autoImplicit false

section Typing

def putWhite (keys : Keys) (c : Byte) : Keys :=
  { keys with console := vgaPut keys.console c whiteOnBlack }

def pressBackspace (keys : Keys) : Keys := (keyboardGetChar 0x0E keys).2

def Scrolls (console : Console) : Prop :=
  console.vgaCol + 1 ≥ (vgaWidth : Int) ∧
    (vgaPos console 0 (console.vgaRow + 1)).vgaRow > (vgaHeight : Int) - 1

/-- A character is put on the screen and the screen does not scroll. -/
def Types (keys : Keys) (c : Byte) : Prop := c ≠ 0 ∧ ¬ Scrolls keys.console

structure Cleared (console : Console) : Prop where
  corner : At console 0 0
  empty : ∀ row col, row < vgaHeight → col < vgaWidth →
    cell console.memory row col = erasedCell

end Typing

section Places

/-- The cells in front of a place hold text, but for the last column. -/
def InText (place row col : Nat) : Prop := row * 80 + col < place ∧ col ≠ 79

/-- The screen when the cursor is at a place, counted along the rows. -/
structure Written (console : Console) (place : Nat) : Prop where
  cursor : At console (place / 80) (place % 80)
  text : ∀ row col, row < vgaHeight → col < vgaWidth → InText place row col →
    ¬ Blank console.memory row col
  empty : ∀ row col, row < vgaHeight → col < vgaWidth → ¬ InText place row col →
    cell console.memory row col = erasedCell

theorem written_zero_iff (console : Console) : Written console 0 ↔ Cleared console := by
  constructor
  · intro written
    refine ⟨written.cursor, ?_⟩
    intro row col rowBound colBound
    exact written.empty row col rowBound colBound fun inside => Nat.not_lt_zero _ inside.1
  · intro cleared
    refine ⟨cleared.corner, ?_, ?_⟩
    · intro row col _ _ inside
      exact absurd inside.1 (Nat.not_lt_zero _)
    · intro row col rowBound colBound _
      exact cleared.empty row col rowBound colBound

theorem written_cleared_iff {console : Console} {place : Nat} (written : Written console place) :
    Cleared console ↔ place = 0 := by
  constructor
  · intro cleared
    have row := written.cursor.vgaRow
    have col := written.cursor.vgaCol
    rw [cleared.corner.vgaRow] at row
    rw [cleared.corner.vgaCol] at col
    omega
  · rintro rfl
    exact (written_zero_iff console).mp written

theorem erased_blank {memory : Memory} {row col : Nat} (erased : cell memory row col = erasedCell) :
    Blank memory row col := by
  rw [Blank, erased]
  decide

theorem stored_not_blank (c color : Byte) (printable : c ≠ 0) :
    u16 (vgaChar c color).toNat % 256 ≠ 0 := by
  intro blank
  apply printable
  have low := congrArg UInt8.toNat (vga_char_low c color)
  rw [UInt8.toNat_ofNat'] at low
  apply UInt8.toNat_inj.mp
  rw [← low]
  simp only [u16] at blank
  change _ = 0
  omega

end Places

section Forward

/-- Where typing one character leads: from the last column the character goes
to the start of the next row. -/
def nextPlace (place : Nat) : Nat := if place % 80 = 79 then place + 2 else place + 1

def typedPlace (length : Nat) : Nat := length + (length - 1) / 79

theorem next_typed_place (length : Nat) :
    nextPlace (typedPlace length) = typedPlace (length + 1) := by
  unfold nextPlace typedPlace
  split_ifs <;> omega

variable {console : Console} {place : Nat}

theorem written_put (written : Written console place) (c : Byte) (printable : c ≠ 0)
    (room : place % 80 ≠ 79) :
    Written (vgaPos (vgaSet console c whiteOnBlack console.vgaCol console.vgaRow)
      (console.vgaCol + 1) console.vgaRow) (place + 1) := by
  have here := written.cursor
  have width : vgaWidth = 80 := rfl
  obtain ⟨next, stored⟩ := at_set_next here (by omega) c whiteOnBlack
  have nextRow : (place + 1) / 80 = place / 80 := by omega
  have nextCol : (place + 1) % 80 = place % 80 + 1 := by omega
  constructor
  · rw [nextRow, nextCol]
    exact next
  · intro row col rowBound colBound inside
    rw [stored, Blank, cell_store _ _ rowBound colBound here.rowBound here.colBound]
    split_ifs with current
    · exact stored_not_blank c whiteOnBlack printable
    · exact written.text row col rowBound colBound ⟨by have := inside.1; omega, inside.2⟩
  · intro row col rowBound colBound outside
    rw [stored, cell_store _ _ rowBound colBound here.rowBound here.colBound]
    split_ifs with current
    · exact absurd ⟨by omega, by omega⟩ outside
    · exact written.empty row col rowBound colBound fun inside =>
        outside ⟨Nat.lt_succ_of_lt inside.1, inside.2⟩

theorem written_newline (written : Written console place) (edge : place % 80 = 79)
    (stays : ¬ Scrolls console) : Written (vgaNewline console) (place + 1) := by
  have here := written.cursor
  have rowBound := here.rowBound
  have height : vgaHeight = 25 := rfl
  have width : vgaWidth = 80 := rfl
  have row : console.vgaRow + 1 = ((place / 80 + 1 : Nat) : Int) := by
    rw [here.vgaRow]
    omega
  have room : ¬ (vgaPos console 0 (console.vgaRow + 1)).vgaRow > (vgaHeight : Int) - 1 := by
    intro low
    refine stays ⟨?_, low⟩
    rw [here.vgaCol]
    omega
  have below : place / 80 + 1 < vgaHeight := by
    rw [vga_pos_row, row, to_uchar_small _ (by omega) (by omega)] at room
    omega
  have moved : vgaNewline console = vgaPos console ((0 : Nat) : Int) (console.vgaRow + 1) := by
    unfold vgaNewline
    exact if_neg room
  have nextRow : (place + 1) / 80 = place / 80 + 1 := by omega
  have nextCol : (place + 1) % 80 = 0 := by omega
  have same : ∀ row col, col < vgaWidth →
      (InText (place + 1) row col ↔ InText place row col) := by
    intro row col colBound
    unfold InText
    omega
  rw [moved]
  refine ⟨?_, ?_, ?_⟩
  · rw [nextRow, nextCol, row]
    exact at_pos here.buffer below (by decide)
  · intro row col rowBound colBound inside
    exact written.text row col rowBound colBound ((same row col colBound).mp inside)
  · intro row col rowBound colBound outside
    exact written.empty row col rowBound colBound fun inside =>
      outside ((same row col colBound).mpr inside)

theorem put_written {keys : Keys} (written : Written keys.console place) (c : Byte)
    (typed : Types keys c) : Written (putWhite keys c).console (nextPlace place) := by
  have here := written.cursor
  have width : vgaWidth = 80 := rfl
  simp only [putWhite, vgaPut, nextPlace]
  split_ifs with wrap edge edge
  · have opened := written_newline written edge typed.2
    exact written_put opened c typed.1 (by omega)
  · rw [here.vgaCol] at wrap
    omega
  · rw [here.vgaCol] at wrap
    omega
  · exact written_put written c typed.1 edge

theorem typed_written {keys : Keys} (text : List Byte) (length : Nat)
    (written : Written keys.console (typedPlace length))
    (typed : EachStep putWhite Types keys text) :
    Written (run putWhite keys text).console (typedPlace (length + text.length)) := by
  induction text generalizing keys length with
  | nil => exact written
  | cons c text ih =>
      have next := put_written written c typed.1
      rw [next_typed_place] at next
      have rest := ih (length + 1) next typed.2
      rwa [Nat.add_assoc, Nat.add_comm 1] at rest

theorem scrolls_iff (written : Written console (typedPlace place)) :
    Scrolls console ↔ place = 25 * 79 := by
  have here := written.cursor
  have rowBound := here.rowBound
  have height : vgaHeight = 25 := rfl
  have row : (vgaPos console 0 (console.vgaRow + 1)).vgaRow =
      ((typedPlace place / 80 + 1 : Nat) : Int) := by
    rw [vga_pos_row, here.vgaRow, to_uchar_small _ (by omega) (by omega)]
    omega
  unfold Scrolls
  rw [row, here.vgaCol]
  simp only [vgaWidth, vgaHeight]
  unfold typedPlace at rowBound ⊢
  omega

/-- What may be typed without scrolling: texts of up to 1975 characters. -/
theorem types_iff_short {keys : Keys} (text : List Byte) (length : Nat)
    (written : Written keys.console (typedPlace length)) (short : length ≤ 25 * 79) :
    EachStep putWhite Types keys text ↔
      (∀ c ∈ text, c ≠ 0) ∧ length + text.length ≤ 25 * 79 := by
  induction text generalizing keys length with
  | nil => simp [short]
  | cons c text ih =>
      have full := scrolls_iff written
      rw [each_step_cons, List.forall_mem_cons, List.length_cons]
      constructor
      · rintro ⟨typed, rest⟩
        have room : length ≠ 25 * 79 := fun last => typed.2 (full.mpr last)
        have next := put_written written c typed
        rw [next_typed_place] at next
        have later := (ih (length + 1) next (by omega)).mp rest
        exact ⟨⟨typed.1, later.1⟩, by omega⟩
      · rintro ⟨⟨printable, others⟩, fits⟩
        have typed : Types keys c := ⟨printable, fun low => by have := full.mp low; omega⟩
        have next := put_written written c typed
        rw [next_typed_place] at next
        exact ⟨typed, (ih (length + 1) next (by omega)).mpr ⟨others, by omega⟩⟩

end Forward

section Backward

variable {console : Console} {place : Nat}

theorem full_line_ends (written : Written console (place + 1)) (edge : place % 80 = 79) :
    TextEnds console.memory (place / 80) 79 := by
  have rowBound := written.cursor.rowBound
  have width : vgaWidth = 80 := rfl
  constructor
  · intro col behind colBound
    apply erased_blank
    apply written.empty _ _ (by omega) colBound
    intro inside
    exact inside.2 (by omega)
  · rintro col last
    apply written.text _ _ (by omega) (by omega)
    exact ⟨by omega, by omega⟩

theorem backspace_goes_back (written : Written console (place + 1)) :
    At (backspaceMove console) (place / 80) (place % 80) ∧
      (backspaceMove console).memory = console.memory := by
  have here := written.cursor
  by_cases edge : place % 80 = 79
  · have row : (place + 1) / 80 = place / 80 + 1 := by omega
    have col : (place + 1) % 80 = 0 := by omega
    rw [row, col] at here
    rw [edge]
    exact backspace_joins_at here (full_line_ends written edge) (Nat.le_refl 79)
  · have row : (place + 1) / 80 = place / 80 := by omega
    have col : (place + 1) % 80 = place % 80 + 1 := by omega
    rw [row, col] at here
    exact backspace_steps_left here

theorem backspace_written {keys : Keys} (written : Written keys.console (place + 1)) :
    Written (pressBackspace keys).console place := by
  have moved := backspace_goes_back written
  have erased := backspace_erases moved.1 moved.2
  have width : vgaWidth = 80 := rfl
  change Written (backspace keys.console) place
  refine ⟨erased.1, ?_, ?_⟩
  · intro row col rowBound colBound inside
    have left := inside.1
    rw [erased.2, Blank, cell_store _ _ rowBound colBound moved.1.rowBound moved.1.colBound,
      if_neg (by omega)]
    exact written.text row col rowBound colBound ⟨by omega, inside.2⟩
  · intro row col rowBound colBound outside
    rw [erased.2, cell_store _ _ rowBound colBound moved.1.rowBound moved.1.colBound]
    split_ifs with current
    · rfl
    · apply written.empty row col rowBound colBound
      intro inside
      have left := inside.1
      exact outside ⟨by omega, inside.2⟩

theorem backspaces_written {keys : Keys} (count : Nat) (written : Written keys.console place)
    (enough : count ≤ place) :
    Written (pressBackspace^[count] keys).console (place - count) := by
  induction count with
  | zero => exact written
  | succ count ih =>
      have before := ih (by omega)
      have step : place - count = (place - (count + 1)) + 1 := by omega
      rw [step] at before
      rw [Function.iterate_succ_apply']
      exact backspace_written before

/-- As many Backspaces as characters leave one place for each wrap. -/
theorem undone_written {keys : Keys} (text : List Byte) (cleared : Cleared keys.console)
    (typed : EachStep putWhite Types keys text) :
    Written (pressBackspace^[text.length] (run putWhite keys text)).console
      ((text.length - 1) / 79) := by
  have start : Written keys.console (typedPlace 0) := (written_zero_iff _).mpr cleared
  have forward := typed_written text 0 start typed
  rw [Nat.zero_add] at forward
  have back := backspaces_written text.length forward (Nat.le_add_right _ _)
  have left : typedPlace text.length - text.length = (text.length - 1) / 79 :=
    Nat.add_sub_cancel_left _ _
  rwa [left] at back

end Backward

section Booting

theorem boot_cleared (memory : Memory) : Cleared (bootKeys memory).console := by
  have console : (bootKeys memory).console = bootConsole memory := rfl
  refine ⟨⟨rfl, rfl, rfl, by decide, by decide⟩, ?_⟩
  intro row col rowBound colBound
  have filled := cell_blank memory rowBound colBound 0 (vgaWidth * vgaHeight) erasedCell
    (by simp)
  have inside : 0 ≤ row * 80 + col ∧ row * 80 + col < 0 + vgaWidth * vgaHeight := by
    simp only [vgaHeight, vgaWidth] at rowBound colBound ⊢
    omega
  rw [if_pos inside] at filled
  rw [console, boot_memory]
  exact filled

end Booting

/-- Backspace takes a text back, character for character, exactly when it fits
in the first row. -/
theorem backspace_undoes_typing_iff (keys : Keys) (text : List Byte)
    (cleared : Cleared keys.console) (typed : EachStep putWhite Types keys text) :
    Cleared (pressBackspace^[text.length] (run putWhite keys text)).console ↔
      text.length ≤ 79 := by
  have undone := undone_written text cleared typed
  rw [written_cleared_iff undone]
  omega

/-- Two letters, typed and taken back after booting. -/
theorem backspace_undoes_two :
    Cleared (pressBackspace^[2] (run putWhite (bootKeys fun _ => 0) [104, 105])).console :=
  (backspace_undoes_typing_iff (bootKeys fun _ => 0) [104, 105] (boot_cleared _)
    ((types_iff_short [104, 105] 0 ((written_zero_iff _).mpr (boot_cleared _))
      (Nat.zero_le _)).mpr ⟨by decide +kernel, by decide +kernel⟩)).mpr (by decide +kernel)

/-- Eighty letters are not taken back by eighty Backspaces. -/
theorem eighty_letters_stay :
    ¬ ∀ (keys : Keys) (text : List Byte), Cleared keys.console →
      EachStep putWhite Types keys text →
      Cleared (pressBackspace^[text.length] (run putWhite keys text)).console := by
  intro always
  have start := boot_cleared fun _ => 0
  have letters : ∀ c ∈ List.replicate 80 (97 : Byte), c ≠ 0 := by
    intro c member
    rw [List.eq_of_mem_replicate member]
    decide
  have typed := (types_iff_short (List.replicate 80 (97 : Byte)) 0
    ((written_zero_iff _).mpr start) (Nat.zero_le _)).mpr ⟨letters, by decide +kernel⟩
  have undone := undone_written (List.replicate 80 (97 : Byte)) start typed
  have place := (written_cleared_iff undone).mp (always _ _ start typed)
  exact absurd place (by decide)

end LumenOS.TypingUndo
