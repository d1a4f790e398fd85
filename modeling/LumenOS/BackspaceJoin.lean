import LumenOS.CursorBounds
import LumenOS.TerminalRefinement

/-!
# Backspace at the start of a line

With the cursor in column zero, Backspace goes to the end of the text on the
row above. It looks for that end from the right and never looks at column
zero, so a row whose only character stands there is taken for an empty one.
-/

namespace LumenOS.BackspaceJoin

open LumenOS.ByteMemory LumenOS.ConsoleModel LumenOS.KeyboardModel LumenOS.CursorBounds
open LumenOS.TerminalRefinement

set_option autoImplicit false

section Cells

def cell (memory : Memory) (row col : Nat) : Nat := load16 memory (cellAddress row col)

def Blank (memory : Memory) (row col : Nat) : Prop := cell memory row col % 256 = 0

/-- The text of a row takes up its first `len` columns: the last character, if
there is one, is just before column `len`. -/
structure TextEnds (memory : Memory) (row len : Nat) : Prop where
  blank : ∀ col, len ≤ col → col < vgaWidth → Blank memory row col
  last : ∀ col, len = col + 1 → ¬ Blank memory row col

theorem cell_store (memory : Memory) (value : Nat) {row col cellRow cellCol : Nat}
    (rowBound : row < vgaHeight) (colBound : col < vgaWidth)
    (cellRowBound : cellRow < vgaHeight) (cellColBound : cellCol < vgaWidth) :
    cell (store16 memory (cellAddress cellRow cellCol) value) row col =
      if row = cellRow ∧ col = cellCol then u16 value else cell memory row col := by
  by_cases same : row = cellRow ∧ col = cellCol
  · obtain ⟨rfl, rfl⟩ := same
    rw [if_pos ⟨rfl, rfl⟩]
    exact load16_store_same _ _ _
  · rw [if_neg same]
    exact load16_store_disjoint _ _ _ _
      (cells_apart rowBound colBound cellRowBound cellColBound same)

theorem cell_blank (memory : Memory) {row col : Nat} (rowBound : row < vgaHeight)
    (colBound : col < vgaWidth) (start count value : Nat)
    (fits : start + count ≤ vgaWidth * vgaHeight) :
    cell (blankCells memory start count value) row col =
      if start ≤ row * 80 + col ∧ row * 80 + col < start + count then u16 value
      else cell memory row col := by
  have width : vgaWidth = 80 := rfl
  have height : vgaHeight = 25 := rfl
  have size : vgaWidth * vgaHeight = 2000 := rfl
  unfold blankCells
  induction count with
  | zero =>
      have outside : ¬ (start ≤ row * 80 + col ∧ row * 80 + col < start + 0) := by omega
      rw [if_neg outside]
      rfl
  | succ count ih =>
      have address : vgaAddress + 2 * (start + count) =
          cellAddress ((start + count) / 80) ((start + count) % 80) := by
        simp only [cellAddress, width]
        omega
      rw [List.range_succ, List.foldl_append]
      simp only [List.foldl_cons, List.foldl_nil]
      rw [address, cell_store _ _ rowBound colBound (by omega) (by omega), ih (by omega)]
      split_ifs <;> first | rfl | omega

end Cells

section Cursor

structure At (console : Console) (row col : Nat) : Prop where
  buffer : console.vgaBuffer = ⟨vgaAddress, vgaWidth, vgaHeight⟩
  vgaRow : console.vgaRow = (row : Int)
  vgaCol : console.vgaCol = (col : Int)
  rowBound : row < vgaHeight
  colBound : col < vgaWidth

variable {console : Console} {row col : Nat}

theorem at_pos (buffer : console.vgaBuffer = ⟨vgaAddress, vgaWidth, vgaHeight⟩)
    (rowBound : row < vgaHeight) (colBound : col < vgaWidth) :
    At (vgaPos console (col : Int) (row : Int)) row col := by
  refine ⟨buffer, ?_, ?_, rowBound, colBound⟩
  · simp only [vgaHeight] at rowBound
    exact to_uchar_small _ (by omega) (by omega)
  · simp only [vgaWidth] at colBound
    exact to_uchar_small _ (by omega) (by omega)

theorem at_index (here : At console row col) :
    console.vgaBuffer.address + 2 * console.vgaBuffer.index col row = cellAddress row col := by
  have rowBound := here.rowBound
  have colBound := here.colBound
  have small : row * vgaWidth + col < 2 ^ 32 := by
    simp only [vgaHeight] at rowBound
    simp only [vgaWidth] at colBound ⊢
    omega
  rw [here.buffer]
  simp only [TBuffer.index, cellAddress, u32, Nat.mod_eq_of_lt small]

theorem at_cursor_cell (here : At console row col) :
    cursorCell console = cell console.memory row col := by
  have rowBound := here.rowBound
  have colBound := here.colBound
  simp only [vgaHeight] at rowBound
  simp only [vgaWidth] at colBound
  have rowSize : toSize console.vgaRow = row := by
    rw [here.vgaRow, to_size_small _ (by omega) (by omega)]
    rfl
  have colSize : toSize console.vgaCol = col := by
    rw [here.vgaCol, to_size_small _ (by omega) (by omega)]
    rfl
  simp only [cursorCell, tbufferGet, rowSize, colSize, at_index here]
  rfl

theorem at_set (here : At console row col) (c color : Byte) :
    At (vgaSet console c color console.vgaCol console.vgaRow) row col ∧
      (vgaSet console c color console.vgaCol console.vgaRow).memory =
        store16 console.memory (cellAddress row col) (vgaChar c color).toNat := by
  have rowBound := here.rowBound
  have colBound := here.colBound
  simp only [vgaHeight] at rowBound
  simp only [vgaWidth] at colBound
  have rowSame : (toUChar console.vgaRow).toNat = row := by
    rw [here.vgaRow, to_uchar_small _ (by omega) (by omega)]
    rfl
  have colSame : (toUChar console.vgaCol).toNat = col := by
    rw [here.vgaCol, to_uchar_small _ (by omega) (by omega)]
    rfl
  refine ⟨⟨here.buffer, here.vgaRow, here.vgaCol, here.rowBound, here.colBound⟩, ?_⟩
  simp only [vgaSet, tbufferSet, rowSame, colSame, at_index here]

/-- Left of the last column the cursor goes on to the next cell. -/
theorem at_set_next (here : At console row col) (room : col + 1 < vgaWidth) (c color : Byte) :
    At (vgaPos (vgaSet console c color console.vgaCol console.vgaRow) (console.vgaCol + 1)
        console.vgaRow) row (col + 1) ∧
      (vgaPos (vgaSet console c color console.vgaCol console.vgaRow) (console.vgaCol + 1)
        console.vgaRow).memory =
        store16 console.memory (cellAddress row col) (vgaChar c color).toNat := by
  obtain ⟨stays, stored⟩ := at_set here c color
  have next : console.vgaCol + 1 = ((col + 1 : Nat) : Int) := by
    rw [here.vgaCol]
    omega
  refine ⟨?_, stored⟩
  rw [next, here.vgaRow]
  exact at_pos stays.buffer here.rowBound room

theorem at_newline (here : At console row col) :
    At (vgaNewline console) (min (row + 1) 24) 0 := by
  have height : vgaHeight = 25 := rfl
  have bound := here.rowBound
  obtain ⟨column, line⟩ := vga_newline_cursor console
  have next : toUChar (console.vgaRow + 1) = (row + 1 : Nat) := by
    rw [here.vgaRow]
    exact to_uchar_small _ (by omega) (by omega)
  refine ⟨?_, ?_, column, by omega, by decide⟩
  · rw [(vga_newline_keeps console).1, here.buffer]
  · rw [line, next]
    simp only [toUChar]
    split_ifs <;> omega

/-- A character stands in the cell before the cursor once it has been put. -/
theorem at_put (here : At console row col) (c color : Byte) :
    ∃ cellRow cellCol, At (vgaPut console c color) cellRow (cellCol + 1) ∧
      cell (vgaPut console c color).memory cellRow cellCol = (vgaChar c color).toNat := by
  have width : vgaWidth = 80 := rfl
  have bound := here.colBound
  have column := here.vgaCol
  have holds : ∀ memory row col, row < vgaHeight → col < vgaWidth →
      cell (store16 memory (cellAddress row col) (vgaChar c color).toNat) row col =
        (vgaChar c color).toNat := by
    intro memory row col rowBound colBound
    rw [cell_store _ _ rowBound colBound rowBound colBound, if_pos ⟨rfl, rfl⟩]
    exact Nat.mod_eq_of_lt (vgaChar c color).toNat_lt
  unfold vgaPut
  by_cases wraps : console.vgaCol + 1 ≥ (vgaWidth : Int)
  · have moved := at_newline here
    obtain ⟨next, stored⟩ := at_set_next moved (by decide) c color
    rw [if_pos wraps]
    refine ⟨_, _, next, (congrArg (fun memory => cell memory _ _) stored).trans ?_⟩
    exact holds _ _ _ moved.rowBound moved.colBound
  · obtain ⟨next, stored⟩ := at_set_next here (by omega) c color
    rw [if_neg wraps]
    refine ⟨_, _, next, (congrArg (fun memory => cell memory _ _) stored).trans ?_⟩
    exact holds _ _ _ here.rowBound here.colBound

end Cursor

section Scan

/-- The `while` loop of the Backspace case, from the console it is entered with
to the one it is left with. -/
inductive ScanEnds : Console → Console → Prop
  | text {console : Console} (found : cursorCell console % 256 ≠ 0) :
      ScanEnds console (looked console)
  | edge {console : Console} (blank : cursorCell console % 256 = 0)
      (start : toUChar (console.vgaCol - 1) = 0) :
      ScanEnds console
        (vgaPos (vgaPos (looked console) (console.vgaCol - 1) console.vgaRow)
          (toUChar (console.vgaCol - 1) - 1) (toUChar console.vgaRow))
  | next {console result : Console} (blank : cursorCell console % 256 = 0)
      (right : toUChar (console.vgaCol - 1) ≠ 0)
      (rest : ScanEnds (vgaPos (looked console) (console.vgaCol - 1) console.vgaRow) result) :
      ScanEnds console result

theorem scan_ends_within (rounds : Nat) (console : Console)
    (enough : toUChar (console.vgaCol - 1) < rounds) :
    ScanEnds console (backspaceScan rounds console) := by
  induction rounds generalizing console with
  | zero =>
      unfold toUChar at enough
      omega
  | succ rounds ih =>
      rw [backspace_scan_succ]
      split_ifs with blank start
      · exact .edge blank start
      · refine .next blank start (ih _ ?_)
        rw [vga_pos_col]
        unfold toUChar at enough start ⊢
        omega
      · exact .text blank

/-- The loop ends from every state, on whatever the cells hold. -/
theorem scan_ends (console : Console) : ScanEnds console (backspaceScan 256 console) := by
  apply scan_ends_within
  unfold toUChar
  omega

theorem scan_keeps (rounds : Nat) (console : Console) :
    (backspaceScan rounds console).memory = console.memory ∧
      (backspaceScan rounds console).vgaBuffer = console.vgaBuffer := by
  induction rounds generalizing console with
  | zero => exact ⟨rfl, rfl⟩
  | succ rounds ih =>
      rw [backspace_scan_succ]
      split_ifs
      · exact ⟨rfl, rfl⟩
      · exact ih _
      · exact ⟨rfl, rfl⟩

/-- Where the cursor comes to rest above: behind the text, except that a text of
one character goes unseen. -/
def joinColumn (len : Nat) : Nat := if len = 1 then 0 else len

variable {row len : Nat}

/-- From the right of the text the scan stops on its last character, or passes
column zero without a look at it. -/
theorem scan_column (rounds : Nat) {console : Console} {col : Nat} (here : At console row col)
    (ends : TextEnds console.memory row len) (behind : len ≤ col + 1) (right : 0 < col)
    (enough : col < rounds) :
    toUChar ((backspaceScan rounds console).vgaCol + 1) = (joinColumn len : Int) := by
  induction rounds generalizing console col with
  | zero => omega
  | succ rounds ih =>
      have colBound := here.colBound
      have width : vgaWidth = 80 := rfl
      have left : toUChar (console.vgaCol - 1) = ((col - 1 : Nat) : Int) := by
        rw [here.vgaCol, to_uchar_small _ (by omega) (by omega)]
        omega
      rw [backspace_scan_succ, at_cursor_cell here, left]
      split_ifs with blank start
      · -- the text, if any, is the character in column zero
        have short : len ≠ col + 1 := fun last => ends.last col last blank
        have unseen : joinColumn len = 0 := by
          unfold joinColumn
          split_ifs <;> omega
        rw [vga_pos_col, start, unseen]
        rfl
      · have short : len ≠ col + 1 := fun last => ends.last col last blank
        have moved : At (vgaPos (looked console) (console.vgaCol - 1) console.vgaRow) row
            (col - 1) := by
          have column : console.vgaCol - 1 = ((col - 1 : Nat) : Int) := by
            rw [here.vgaCol]
            omega
          rw [column, here.vgaRow]
          exact at_pos here.buffer here.rowBound (by omega)
        exact ih moved ends (by omega) (by omega) (by omega)
      · have last : len = col + 1 := by
          by_contra other
          exact blank (ends.blank col (by omega) colBound)
        have seen : joinColumn len = col + 1 := by
          unfold joinColumn
          split_ifs <;> omega
        have column : (looked console).vgaCol = (col : Int) := here.vgaCol
        rw [column, seen, to_uchar_small _ (by omega) (by omega)]
        omega

end Scan

section Erasing

variable {console : Console} {row col len : Nat}

def scanStart (console : Console) : Console :=
  let above := vgaPos console 79 (console.vgaRow - 1)
  looked (serialWriteChar (looked above) (UInt8.ofNat (cursorCell above)))

theorem at_scan_start (start : At console (row + 1) 0) : At (scanStart console) row 79 := by
  have rowBound := start.rowBound
  have above : console.vgaRow - 1 = (row : Int) := by
    rw [start.vgaRow]
    omega
  have moved : At (vgaPos console (79 : Nat) (console.vgaRow - 1)) row 79 := by
    rw [above]
    exact at_pos start.buffer (by omega) (by decide)
  exact ⟨moved.buffer, moved.vgaRow, moved.vgaCol, moved.rowBound, moved.colBound⟩

/-- Backspace in column zero below a row that is blank at the right: the loop
is entered, and the cursor ends up where it leaves it. -/
theorem backspace_move_scans (start : At console (row + 1) 0)
    (blank : Blank console.memory row 79) :
    backspaceMove console =
      vgaPos (backspaceScan 256 (scanStart console))
        ((backspaceScan 256 (scanStart console)).vgaCol + 1)
        (backspaceScan 256 (scanStart console)).vgaRow := by
  have seen := at_cursor_cell (at_scan_start start)
  have left : ¬ console.vgaCol > 0 := by
    rw [start.vgaCol]
    decide
  rw [backspace_move_up console left]
  apply if_pos
  change cursorCell (scanStart console) % 256 = 0
  rw [seen]
  exact blank

theorem backspace_joins_at (start : At console (row + 1) 0)
    (ends : TextEnds console.memory row len) (short : len ≤ 79) :
    At (backspaceMove console) row (joinColumn len) ∧
      (backspaceMove console).memory = console.memory := by
  have scanning := at_scan_start start
  have stopped := scan_column 256 scanning ends (by omega) (by decide) (by decide)
  have kept := scan_keeps 256 (scanStart console)
  have rowBound := scanning.rowBound
  simp only [vgaHeight] at rowBound
  have stays : (backspaceScan 256 (scanStart console)).vgaRow = (row : Int) := by
    rw [backspace_scan_row 256 _ (by rw [scanning.vgaRow]; omega)
      (by rw [scanning.vgaRow]; omega), scanning.vgaRow]
  have inside : joinColumn len < vgaWidth := by
    simp only [joinColumn, vgaWidth]
    split_ifs <;> omega
  rw [backspace_move_scans start (ends.blank 79 short (by decide))]
  refine ⟨⟨?_, ?_, stopped, scanning.rowBound, inside⟩, ?_⟩
  · rw [vga_pos_buffer, kept.2]
    exact start.buffer
  · rw [vga_pos_row, stays]
    exact to_uchar_small _ (by omega) (by omega)
  · rw [vga_pos_memory, kept.1]
    rfl

theorem backspace_steps_left (here : At console row (col + 1)) :
    At (backspaceMove console) row col ∧ (backspaceMove console).memory = console.memory := by
  have colBound := here.colBound
  have column : console.vgaCol - 1 = (col : Int) := by
    rw [here.vgaCol]
    omega
  have right : console.vgaCol > 0 := by
    rw [here.vgaCol]
    omega
  unfold backspaceMove
  rw [if_pos right, column, here.vgaRow]
  exact ⟨at_pos here.buffer here.rowBound (by omega), rfl⟩

def erasedCell : Nat := (vgaChar 0 whiteOnBlack).toNat

/-- The cell the move ends on is emptied; the cursor stays on it. -/
theorem backspace_erases (moved : At (backspaceMove console) row col)
    (same : (backspaceMove console).memory = console.memory) :
    At (backspace console) row col ∧
      (backspace console).memory =
        store16 console.memory (cellAddress row col) erasedCell := by
  rw [← same]
  exact at_set moved 0 whiteOnBlack

end Erasing

section Joining

/-- Backspace at the start of a line as the user wants it: the loop ends, the
cursor is behind the text above and no character is lost. -/
structure Joins (keys : Keys) (row len : Nat) : Prop where
  ends : ScanEnds (scanStart keys.console) (backspaceScan 256 (scanStart keys.console))
  row : (keyboardGetChar 0x0E keys).2.console.vgaRow = (row : Int)
  col : (keyboardGetChar 0x0E keys).2.console.vgaCol = (len : Int)
  kept : ∀ cellRow cellCol, cellRow < vgaHeight → cellCol < vgaWidth →
    ¬ Blank keys.console.memory cellRow cellCol →
    cell (keyboardGetChar 0x0E keys).2.console.memory cellRow cellCol =
      cell keys.console.memory cellRow cellCol

/-- The line joins the text above it exactly when that text is not a single
character. -/
theorem backspace_joins_iff (keys : Keys) (row len : Nat) (start : At keys.console (row + 1) 0)
    (ends : TextEnds keys.console.memory row len) (short : len ≤ 79) :
    Joins keys row len ↔ len ≠ 1 := by
  have moved := backspace_joins_at start ends short
  have erased := backspace_erases moved.1 moved.2
  constructor
  · rintro joins rfl
    have behind : (backspace keys.console).vgaCol = ((1 : Nat) : Int) := joins.col
    rw [erased.1.vgaCol] at behind
    exact absurd behind (by decide)
  · intro several
    have column : joinColumn len = len := if_neg several
    rw [column] at erased
    refine ⟨scan_ends _, erased.1.vgaRow, erased.1.vgaCol, ?_⟩
    intro cellRow cellCol rowBound colBound character
    change cell (backspace keys.console).memory cellRow cellCol = _
    rw [erased.2, cell_store _ _ rowBound colBound erased.1.rowBound erased.1.colBound]
    apply if_neg
    rintro ⟨rfl, rfl⟩
    exact character (ends.blank _ (Nat.le_refl _) colBound)

/-- The cursor at the start of the second line, on a screen with this memory. -/
def secondLine (memory : Memory) : Keys where
  console :=
    { memory := memory, vgaBuffer := ⟨vgaAddress, vgaWidth, vgaHeight⟩, vgaRow := 1, vgaCol := 0,
      cursorLocation := 80, accesses := [], serial := [] }
  keyboardShift := 0

theorem second_line_start (memory : Memory) : At (secondLine memory).console 1 0 :=
  ⟨rfl, rfl, rfl, by decide, by decide⟩

def lettersAt (count : Nat) : Memory := fun address =>
  if vgaAddress ≤ address ∧ address < vgaAddress + 2 * count ∧ address % 2 = 0 then 97 else 0

theorem letters_cell (count col : Nat) (bound : col < vgaWidth) :
    cell (lettersAt count) 0 col = if col < count then 97 else 0 := by
  have low : u32 (cellAddress 0 col) = vgaAddress + 2 * col := by
    simp only [vgaWidth] at bound
    simp only [u32, cellAddress, vgaAddress, vgaWidth]
    omega
  have high : u32 (cellAddress 0 col + 1) = vgaAddress + 2 * col + 1 := by
    simp only [vgaWidth] at bound
    simp only [u32, cellAddress, vgaAddress, vgaWidth]
    omega
  have colour : lettersAt count (vgaAddress + 2 * col + 1) = 0 := by
    apply if_neg
    simp only [vgaAddress]
    omega
  have letter : lettersAt count (vgaAddress + 2 * col) = if col < count then 97 else 0 := by
    by_cases within : col < count
    · rw [if_pos within]
      apply if_pos
      simp only [vgaAddress]
      omega
    · rw [if_neg within]
      apply if_neg
      simp only [vgaAddress]
      omega
  simp only [cell, load16, readBytes, decodeLE, readByte, low, high, colour, letter]
  split_ifs <;> rfl

theorem letters_end (count : Nat) (fits : count ≤ vgaWidth) :
    TextEnds (lettersAt count) 0 count := by
  constructor
  · intro col behind bound
    rw [Blank, letters_cell count col bound, if_neg (by omega)]
  · rintro col rfl
    rw [Blank, letters_cell (col + 1) col fits, if_pos (Nat.lt_succ_self col)]
    decide

/-- A row with two letters gets the cursor behind them. -/
theorem backspace_joins_two : Joins (secondLine (lettersAt 2)) 0 2 :=
  (backspace_joins_iff (secondLine (lettersAt 2)) 0 2 (second_line_start _)
    (letters_end 2 (by decide)) (by decide)).mpr (by decide)

/-- A letter alone on its row is lost. -/
theorem backspace_loses_letter :
    ¬ ∀ (keys : Keys) (row len : Nat), At keys.console (row + 1) 0 →
      TextEnds keys.console.memory row len → len ≤ 79 → Joins keys row len := by
  intro always
  have joins := always (secondLine (lettersAt 1)) 0 1 (second_line_start _)
    (letters_end 1 (by decide)) (by decide)
  have column : (keyboardGetChar 0x0E (secondLine (lettersAt 1))).2.console.vgaCol = 0 := by
    decide +kernel
  rw [joins.col] at column
  exact absurd column (by decide)

end Joining

end LumenOS.BackspaceJoin
