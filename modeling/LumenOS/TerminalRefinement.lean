import LumenOS.ConsoleModel
import LumenOS.StepRuns
import Mathlib.Data.List.GetD

/-!
# The console as a scrolling terminal

A terminal is the text written so far, cut into lines. The console keeps the
last 25 of them in the low bytes of its cells. The high bytes hold colours,
which the terminal does not know about.
-/

namespace LumenOS.TerminalRefinement

open LumenOS.ByteMemory LumenOS.StringModel LumenOS.ConsoleModel LumenOS.StepRuns

set_option autoImplicit false

/-- Lines that are complete, and the one being written. -/
structure Terminal where
  finished : List (List Byte)
  current : List Byte
  narrow : ∀ line ∈ finished ++ [current], line.length ≤ 79

namespace Terminal

def lines (terminal : Terminal) : List (List Byte) := terminal.finished ++ [terminal.current]

def empty : Terminal where
  finished := []
  current := []
  narrow := by simp

def openLine (terminal : Terminal) : Terminal where
  finished := terminal.lines
  current := []
  narrow := by
    intro line member
    rcases List.mem_append.mp member with old | new
    · exact terminal.narrow line old
    · rw [List.mem_singleton.mp new]
      exact Nat.zero_le 79

def append (terminal : Terminal) (c : Byte) (room : terminal.current.length < 79) : Terminal where
  finished := terminal.finished
  current := terminal.current ++ [c]
  narrow := by
    intro line member
    rcases List.mem_append.mp member with old | new
    · exact terminal.narrow line (List.mem_append_left _ old)
    · rw [List.mem_singleton.mp new, List.length_append, List.length_singleton]
      exact room

/-- The last 25 lines, or all of them. -/
def recent (terminal : Terminal) : List (List Byte) :=
  terminal.lines.drop (terminal.lines.length - vgaHeight)

end Terminal

inductive TerminalEvent where
  | put (c color : Byte) (nonzero : c ≠ 0)
  | newline

def terminalStep (terminal : Terminal) : TerminalEvent → Terminal
  | .put c _ _ =>
      if room : terminal.current.length < 79 then terminal.append c room
      else terminal.openLine.append c (show 0 < 79 by decide)
  | .newline => terminal.openLine

def consoleStep (console : Console) : TerminalEvent → Console
  | .put c color _ => vgaPut console c color
  | .newline => vgaNewline console

def cellAddress (row col : Nat) : Nat := vgaAddress + 2 * (row * vgaWidth + col)

def screenByte (memory : Memory) (row col : Nat) : Byte := readByte memory (cellAddress row col)

def screenRow (console : Console) (row : Nat) : List Byte :=
  window (screenByte console.memory row) 0 vgaWidth

def screen (console : Console) : List (List Byte) := (List.range vgaHeight).map (screenRow console)

def padded (line : List Byte) : List Byte := line ++ List.replicate (vgaWidth - line.length) 0

def rendered (terminal : Terminal) : List (List Byte) :=
  terminal.recent.map padded ++
    List.replicate (vgaHeight - terminal.recent.length) (List.replicate vgaWidth 0)

/-- The character of a line at a column, NUL right of its end. -/
def lineCell (line : List Byte) (col : Nat) : Byte := line.getD col 0

/-- The line a screen row shows, none below the current one. -/
def rowLine (terminal : Terminal) (row : Nat) : List Byte :=
  terminal.lines.getD (terminal.lines.length - vgaHeight + row) []

structure Shows (console : Console) (terminal : Terminal) : Prop where
  buffer : console.vgaBuffer = ⟨vgaAddress, vgaWidth, vgaHeight⟩
  col : console.vgaCol = (terminal.current.length : Int)
  row : console.vgaRow + 1 = (min terminal.lines.length vgaHeight : Nat)
  cells : ∀ row col, row < vgaHeight → col < vgaWidth →
    screenByte console.memory row col = lineCell (rowLine terminal row) col

theorem cell_address_bound (row col : Nat) (rowBound : row < vgaHeight)
    (colBound : col < vgaWidth) : cellAddress row col + 1 < 2 ^ 32 := by
  simp only [vgaHeight, vgaWidth] at rowBound colBound
  simp only [cellAddress, vgaAddress, vgaWidth]
  omega

theorem cells_apart {row col cellRow cellCol : Nat} (rowBound : row < vgaHeight)
    (colBound : col < vgaWidth) (cellRowBound : cellRow < vgaHeight)
    (cellColBound : cellCol < vgaWidth) (different : ¬ (row = cellRow ∧ col = cellCol)) :
    Disjoint (cellAddress row col) 2 (cellAddress cellRow cellCol) 2 := by
  have here := cell_address_bound row col rowBound colBound
  have there := cell_address_bound cellRow cellCol cellRowBound cellColBound
  apply disjoint_of_separate (by omega) (by omega)
  simp only [vgaHeight, vgaWidth] at rowBound colBound cellRowBound cellColBound
  simp only [cellAddress, vgaWidth]
  omega

theorem screen_byte_store (memory : Memory) (row col cellRow cellCol value : Nat)
    (rowBound : row < vgaHeight) (colBound : col < vgaWidth)
    (cellRowBound : cellRow < vgaHeight) (cellColBound : cellCol < vgaWidth) :
    screenByte (store16 memory (cellAddress cellRow cellCol) value) row col =
      if row = cellRow ∧ col = cellCol then UInt8.ofNat value
      else screenByte memory row col := by
  by_cases same : row = cellRow ∧ col = cellCol
  · obtain ⟨rfl, rfl⟩ := same
    rw [if_pos ⟨rfl, rfl⟩]
    exact store16_low _ _ _
  · rw [if_neg same]
    apply store16_outside
    intro i bound
    exact cells_apart rowBound colBound cellRowBound cellColBound same 0 i (by decide) bound

theorem screen_byte_fill (memory : Memory) (start count value row col : Nat)
    (rowBound : row < vgaHeight) (colBound : col < vgaWidth)
    (fits : start + count ≤ vgaWidth * vgaHeight) :
    screenByte ((List.range count).foldl
        (fun memory i => store16 memory (vgaAddress + 2 * (start + i)) value) memory) row col =
      if start ≤ row * vgaWidth + col ∧ row * vgaWidth + col < start + count
      then UInt8.ofNat value else screenByte memory row col := by
  induction count with
  | zero =>
      have outside : ¬ (start ≤ row * vgaWidth + col ∧ row * vgaWidth + col < start + 0) := by omega
      rw [if_neg outside]
      rfl
  | succ count ih =>
      have earlier := ih (by omega)
      rw [List.range_succ, List.foldl_append]
      simp only [List.foldl_cons, List.foldl_nil]
      have limit : vgaWidth * vgaHeight = 2000 := rfl
      by_cases last : row * vgaWidth + col = start + count
      · rw [if_pos (show _ ∧ _ from ⟨by omega, by omega⟩), ← last]
        exact store16_low _ _ _
      · have same : (start ≤ row * vgaWidth + col ∧ row * vgaWidth + col < start + (count + 1)) ↔
            (start ≤ row * vgaWidth + col ∧ row * vgaWidth + col < start + count) := by omega
        simp only [same]
        rw [← earlier]
        have here := cell_address_bound row col rowBound colBound
        apply store16_apart _ _ _ _ (by simp only [vgaAddress]; omega) (by omega)
        simp only [cellAddress]
        omega

theorem scroll_memory (console : Console) :
    (vgaScroll console 1).memory =
      blankCells (memmove console.memory vgaAddress (vgaAddress + 160) 3840) 1920 80 0x0700 := by
  have partly : ¬ vgaHeight ≤ 1 := by decide
  have size : (vgaHeight - 1) * vgaWidth * 2 = 3840 := rfl
  have source : vgaAddress + 2 * (1 * vgaWidth) = vgaAddress + 160 := rfl
  have freed : (vgaHeight - 1 + 0) * vgaWidth = 1920 := rfl
  simp only [vgaScroll, if_neg partly, size, source,
    List.range_one, List.foldl_cons, List.foldl_nil, freed]
  rfl

/-- The overlapping move brings every row up by one; the freed row is blanked. -/
theorem scroll_cells (console : Console) (row col : Nat) (rowBound : row < vgaHeight)
    (colBound : col < vgaWidth) :
    screenByte (vgaScroll console 1).memory row col =
      if row < 24 then screenByte console.memory (row + 1) col else 0 := by
  have here := cell_address_bound row col rowBound colBound
  have blanked := screen_byte_fill (memmove console.memory vgaAddress (vgaAddress + 160) 3840)
    1920 80 0x0700 row col rowBound colBound (by decide)
  have moved := memmove_moved console.memory vgaAddress (vgaAddress + 160) 3840 (by decide)
    (by decide)
  rw [scroll_memory, blankCells, blanked]
  simp only [vgaHeight, vgaWidth] at rowBound colBound
  by_cases last : row < 24
  · have kept : ¬ (1920 ≤ row * vgaWidth + col ∧ row * vgaWidth + col < 1920 + 80) := by
      simp only [vgaWidth]
      omega
    have place : vgaAddress + (cellAddress row col - vgaAddress) = cellAddress row col := by
      simp only [cellAddress]
      omega
    have source : vgaAddress + 160 + (cellAddress row col - vgaAddress) =
        cellAddress (row + 1) col := by
      simp only [cellAddress, vgaWidth]
      omega
    have copied := moved.copied (cellAddress row col - vgaAddress) (Nat.zero_le _) (by
      simp only [cellAddress, vgaWidth]
      omega)
    rw [place, source] at copied
    rw [if_neg kept, if_pos last, screenByte, copied]
    rfl
  · have freed : 1920 ≤ row * vgaWidth + col ∧ row * vgaWidth + col < 1920 + 80 := by
      simp only [vgaWidth]
      omega
    rw [if_pos freed, if_neg last]
    rfl

theorem boot_memory (memory : Memory) :
    (bootConsole memory).memory = (List.range (vgaWidth * vgaHeight)).foldl
      (fun memory i => store16 memory (vgaAddress + 2 * (0 + i)) (vgaChar 0 whiteOnBlack).toNat)
      memory := by
  have size : u32 (vgaWidth * vgaHeight) = vgaWidth * vgaHeight := by decide
  simp only [bootConsole, vga_pos_memory, vgaClear, tbufferFill, vgaInit, tbufferInit, size,
    Nat.zero_add]

theorem boot_shows (memory : Memory) : Shows (bootConsole memory) Terminal.empty := by
  refine ⟨rfl, rfl, rfl, ?_⟩
  intro row col rowBound colBound
  have filled := screen_byte_fill memory 0 (vgaWidth * vgaHeight) (vgaChar 0 whiteOnBlack).toNat
    row col rowBound colBound (by decide)
  have inside : 0 ≤ row * vgaWidth + col ∧
      row * vgaWidth + col < 0 + vgaWidth * vgaHeight := by
    simp only [vgaHeight, vgaWidth] at rowBound colBound ⊢
    omega
  have blank : lineCell (rowLine Terminal.empty row) col = 0 := by
    unfold rowLine
    cases row <;> rfl
  rw [boot_memory, filled, if_pos inside, vga_char_low, blank]

section Lines

theorem lines_length (terminal : Terminal) :
    terminal.lines.length = terminal.finished.length + 1 := by
  simp [Terminal.lines]

theorem get_open_line (lines : List (List Byte)) (i : Nat) :
    (lines ++ [[]]).getD i [] = lines.getD i [] := by
  by_cases within : i < lines.length
  · rw [List.getD_append _ _ _ _ within]
  · have beyond : lines.length ≤ i := by omega
    rw [List.getD_append_right _ _ _ _ beyond, List.getD_eq_default lines [] beyond]
    cases i - lines.length <;> rfl

theorem row_line_open (terminal : Terminal) (row : Nat) :
    rowLine terminal.openLine row =
      terminal.lines.getD (terminal.lines.length + 1 - vgaHeight + row) [] := by
  have opened : terminal.openLine.lines = terminal.lines ++ [[]] := rfl
  rw [rowLine, opened, get_open_line, List.length_append, List.length_singleton]

theorem row_line_open_room (terminal : Terminal) (room : terminal.lines.length < vgaHeight)
    (row : Nat) : rowLine terminal.openLine row = rowLine terminal row := by
  rw [row_line_open, rowLine]
  congr 1
  omega

theorem row_line_open_full (terminal : Terminal) (full : vgaHeight ≤ terminal.lines.length)
    (row : Nat) : rowLine terminal.openLine row = rowLine terminal (row + 1) := by
  rw [row_line_open, rowLine]
  congr 1
  omega

theorem row_line_below (terminal : Terminal) (row : Nat) (below : vgaHeight ≤ row) :
    rowLine terminal row = [] := by
  rw [rowLine]
  apply List.getD_eq_default
  simp only [vgaHeight] at below ⊢
  omega

theorem line_cell_append (line : List Byte) (c : Byte) (col : Nat) :
    lineCell (line ++ [c]) col = if col = line.length then c else lineCell line col := by
  unfold lineCell
  by_cases within : col < line.length
  · rw [List.getD_append _ _ _ _ within, if_neg (Nat.ne_of_lt within)]
  · rw [List.getD_append_right _ _ _ _ (by omega), List.getD_eq_default line 0 (by omega)]
    by_cases last : col = line.length
    · rw [if_pos last, last, Nat.sub_self]
      rfl
    · rw [if_neg last, List.getD_eq_default]
      rw [List.length_singleton]
      omega

theorem row_line_append (terminal : Terminal) (c : Byte) (room : terminal.current.length < 79)
    (row : Nat) :
    rowLine (terminal.append c room) row =
      if terminal.lines.length - vgaHeight + row = terminal.finished.length
      then terminal.current ++ [c] else rowLine terminal row := by
  have after : (terminal.append c room).lines =
      terminal.finished ++ [terminal.current ++ [c]] := rfl
  have before : terminal.lines = terminal.finished ++ [terminal.current] := rfl
  have same : (terminal.append c room).lines.length = terminal.lines.length := by
    simp only [after, before, List.length_append, List.length_singleton]
  unfold rowLine
  rw [same, after]
  generalize terminal.lines.length - vgaHeight + row = i
  rw [before]
  by_cases last : i = terminal.finished.length
  · rw [if_pos last, last, List.getD_append_right _ _ _ _ (Nat.le_refl _), Nat.sub_self]
    rfl
  · rw [if_neg last]
    by_cases within : i < terminal.finished.length
    · rw [List.getD_append _ _ _ _ within, List.getD_append _ _ _ _ within]
    · rw [List.getD_eq_default, List.getD_eq_default] <;>
        simp only [List.length_append, List.length_singleton] <;> omega

end Lines

/-- The cursor row as a natural number, from the invariant. -/
theorem shows_row {console : Console} {terminal : Terminal} (shown : Shows console terminal) :
    console.vgaRow = ((min terminal.lines.length vgaHeight - 1 : Nat) : Int) := by
  have nonempty := lines_length terminal
  have row := shown.row
  simp only [vgaHeight] at row ⊢
  omega

theorem newline_memory_room (console : Console) (room : ¬ toUChar (console.vgaRow + 1) > 24) :
    (vgaNewline console).memory = console.memory := by
  have stays : ¬ (vgaPos console 0 (console.vgaRow + 1)).vgaRow > (vgaHeight : Int) - 1 := by
    rw [vga_pos_row]
    simp only [vgaHeight]
    omega
  simp only [vgaNewline, if_neg stays, vga_pos_memory]

theorem newline_memory_full (console : Console) (full : toUChar (console.vgaRow + 1) > 24) :
    (vgaNewline console).memory =
      (vgaScroll (vgaPos console 0 (console.vgaRow + 1)) 1).memory := by
  have scrolls : (vgaPos console 0 (console.vgaRow + 1)).vgaRow > (vgaHeight : Int) - 1 := by
    rw [vga_pos_row]
    simp only [vgaHeight]
    omega
  simp only [vgaNewline, if_pos scrolls, vga_pos_memory]

theorem newline_shows (console : Console) (terminal : Terminal) (shown : Shows console terminal) :
    Shows (vgaNewline console) terminal.openLine := by
  have cursor := vga_newline_cursor console
  have row := shown.row
  have longer : terminal.openLine.lines.length = terminal.lines.length + 1 := by
    change (terminal.lines ++ [[]]).length = _
    simp
  have positive := lines_length terminal
  have next : toUChar (console.vgaRow + 1) = (min terminal.lines.length vgaHeight : Nat) := by
    rw [row]
    simp only [toUChar, vgaHeight]
    omega
  refine ⟨?_, cursor.1, ?_, ?_⟩
  · rw [(vga_newline_keeps console).1, shown.buffer]
  · rw [cursor.2, next, longer]
    simp only [toUChar, vgaHeight]
    split_ifs <;> omega
  · intro cellRow col rowBound colBound
    by_cases room : terminal.lines.length < vgaHeight
    · have stays : ¬ toUChar (console.vgaRow + 1) > 24 := by
        rw [next]
        simp only [vgaHeight] at room ⊢
        omega
      rw [newline_memory_room console stays, row_line_open_room terminal room]
      exact shown.cells cellRow col rowBound colBound
    · have full : vgaHeight ≤ terminal.lines.length := by omega
      have scrolls : toUChar (console.vgaRow + 1) > 24 := by
        rw [next]
        simp only [vgaHeight] at full ⊢
        omega
      rw [newline_memory_full console scrolls, scroll_cells _ cellRow col rowBound colBound,
        row_line_open_full terminal full, vga_pos_memory]
      split_ifs with above
      · exact shown.cells (cellRow + 1) col (by simp only [vgaHeight]; omega) colBound
      · rw [row_line_below terminal (cellRow + 1) (by simp only [vgaHeight]; omega)]
        rfl

def cursorRow (terminal : Terminal) : Nat := min terminal.lines.length vgaHeight - 1

theorem cursor_row_bound (terminal : Terminal) : cursorRow terminal < vgaHeight := by
  simp only [cursorRow, vgaHeight]
  omega

theorem cursor_row_iff (terminal : Terminal) (row : Nat) :
    terminal.lines.length - vgaHeight + row = terminal.finished.length ↔
      row = cursorRow terminal := by
  have lines := lines_length terminal
  simp only [cursorRow, vgaHeight]
  omega

theorem cursor_row_line (terminal : Terminal) :
    rowLine terminal (cursorRow terminal) = terminal.current := by
  rw [rowLine, (cursor_row_iff terminal _).mpr rfl, Terminal.lines,
    List.getD_append_right _ _ _ _ (Nat.le_refl _), Nat.sub_self]
  rfl

theorem set_memory {console : Console} {terminal : Terminal} (shown : Shows console terminal)
    (room : terminal.current.length < 79) (c color : Byte) :
    (vgaSet console c color console.vgaCol console.vgaRow).memory =
      store16 console.memory (cellAddress (cursorRow terminal) terminal.current.length)
        (vgaChar c color).toNat := by
  have bound := cursor_row_bound terminal
  have col : toUChar console.vgaCol = (terminal.current.length : Int) := by
    rw [shown.col, toUChar]
    omega
  have row : toUChar console.vgaRow = (cursorRow terminal : Int) := by
    rw [shows_row shown]
    change toUChar (cursorRow terminal : Int) = _
    simp only [vgaHeight] at bound
    rw [toUChar]
    omega
  have index : console.vgaBuffer.index terminal.current.length (cursorRow terminal) =
      cursorRow terminal * vgaWidth + terminal.current.length := by
    rw [shown.buffer, TBuffer.index, u32]
    apply Nat.mod_eq_of_lt
    simp only [vgaHeight] at bound
    simp only [vgaWidth]
    omega
  simp only [vgaSet, tbufferSet, col, row, Int.toNat_natCast, index]
  rw [shown.buffer]
  rfl

theorem append_cells {console : Console} {terminal : Terminal} (shown : Shows console terminal)
    (room : terminal.current.length < 79) (c color : Byte) {row col : Nat}
    (rowBound : row < vgaHeight) (colBound : col < vgaWidth) :
    screenByte (vgaSet console c color console.vgaCol console.vgaRow).memory row col =
      lineCell (rowLine (terminal.append c room) row) col := by
  rw [set_memory shown room, screen_byte_store _ _ _ _ _ _ rowBound colBound
    (cursor_row_bound terminal) (by simp only [vgaWidth]; omega), row_line_append]
  by_cases current : row = cursorRow terminal
  · rw [if_pos ((cursor_row_iff terminal row).mpr current), line_cell_append]
    simp only [current, true_and]
    split_ifs
    · exact vga_char_low c color
    · rw [shown.cells _ col (cursor_row_bound terminal) colBound, cursor_row_line]
  · rw [if_neg fun last => current ((cursor_row_iff terminal row).mp last),
      if_neg fun both => current both.1]
    exact shown.cells row col rowBound colBound

theorem append_shows (console : Console) (terminal : Terminal) (c color : Byte)
    (room : terminal.current.length < 79) (shown : Shows console terminal) :
    Shows (vgaPos (vgaSet console c color console.vgaCol console.vgaRow)
      (console.vgaCol + 1) console.vgaRow) (terminal.append c room) := by
  have bound := cursor_row_bound terminal
  have same : (terminal.append c room).lines.length = terminal.lines.length := by
    rw [lines_length, lines_length]
    rfl
  have lines := lines_length terminal
  refine ⟨shown.buffer, ?_, ?_, ?_⟩
  · rw [vga_pos_col, shown.col, toUChar]
    simp only [Terminal.append, List.length_append, List.length_singleton]
    omega
  · rw [vga_pos_row, shows_row shown, same, toUChar]
    simp only [vgaHeight]
    omega
  · intro row col rowBound colBound
    rw [vga_pos_memory]
    exact append_cells shown room c color rowBound colBound

theorem step_shows (console : Console) (terminal : Terminal) (event : TerminalEvent)
    (shown : Shows console terminal) :
    Shows (consoleStep console event) (terminalStep terminal event) := by
  cases event with
  | newline => exact newline_shows console terminal shown
  | put c color nonzero =>
      have col := shown.col
      simp only [consoleStep, terminalStep, vgaPut]
      split_ifs with wrap room room
      · simp only [vgaWidth] at wrap
        omega
      · exact append_shows _ terminal.openLine c color (show 0 < 79 by decide)
          (newline_shows console terminal shown)
      · exact append_shows _ _ c color room shown
      · simp only [vgaWidth] at wrap
        omega

theorem run_shows (memory : Memory) (events : List TerminalEvent) :
    Shows (run consoleStep (bootConsole memory) events)
      (run terminalStep Terminal.empty events) :=
  run_related step_shows (bootConsole memory) Terminal.empty (boot_shows memory) events

theorem padded_get (line : List Byte) (narrow : line.length ≤ 79) (col : Nat)
    (bound : col < vgaWidth) : (padded line)[col]? = some (lineCell line col) := by
  unfold padded lineCell
  simp only [vgaWidth] at bound ⊢
  by_cases within : col < line.length
  · rw [List.getElem?_append_left within, List.getElem?_eq_getElem within,
      List.getD_eq_getElem _ _ within]
  · rw [List.getElem?_append_right (by omega), List.getElem?_replicate, if_pos (by omega),
      List.getD_eq_default _ _ (by omega)]

theorem padded_length (line : List Byte) (narrow : line.length ≤ 79) :
    (padded line).length = vgaWidth := by
  simp only [padded, vgaWidth, List.length_append, List.length_replicate]
  omega

theorem row_line_narrow (terminal : Terminal) (row : Nat) :
    (rowLine terminal row).length ≤ 79 := by
  unfold rowLine
  generalize terminal.lines.length - vgaHeight + row = i
  by_cases within : i < terminal.lines.length
  · rw [List.getD_eq_getElem _ _ within]
    exact terminal.narrow _ (List.getElem_mem within)
  · rw [List.getD_eq_default _ _ (by omega)]
    exact Nat.zero_le 79

theorem screen_row_padded (console : Console) (terminal : Terminal)
    (shown : Shows console terminal) (row : Nat) (bound : row < vgaHeight) :
    screenRow console row = padded (rowLine terminal row) := by
  have narrow := row_line_narrow terminal row
  apply List.ext_getElem?
  intro col
  by_cases within : col < vgaWidth
  · rw [padded_get _ narrow col within, screenRow, window_get _ _ _ _ within, Nat.zero_add,
      shown.cells row col bound within]
  · rw [List.getElem?_eq_none (by rw [screenRow, window_length]; omega),
      List.getElem?_eq_none (by rw [padded_length _ narrow]; omega)]

theorem rendered_get (terminal : Terminal) (row : Nat) (bound : row < vgaHeight) :
    (rendered terminal)[row]? = some (padded (rowLine terminal row)) := by
  have recent : ∀ i, terminal.recent[i]? = terminal.lines[terminal.lines.length - vgaHeight + i]? :=
    fun i => List.getElem?_drop
  have count : terminal.recent.length =
      terminal.lines.length - (terminal.lines.length - vgaHeight) := List.length_drop
  unfold rendered rowLine
  by_cases within : row < terminal.recent.length
  · have line : terminal.lines.length - vgaHeight + row < terminal.lines.length := by omega
    rw [List.getElem?_append_left (by rwa [List.length_map]), List.getElem?_map, recent,
      List.getElem?_eq_getElem line, List.getD_eq_getElem _ _ line]
    rfl
  · rw [List.getElem?_append_right (by rw [List.length_map]; omega), List.length_map,
      List.getElem?_replicate, if_pos (by omega), List.getD_eq_default _ _ (by omega)]
    rfl

theorem screen_rendered (console : Console) (terminal : Terminal)
    (shown : Shows console terminal) : screen console = rendered terminal := by
  apply List.ext_getElem?
  intro row
  by_cases within : row < vgaHeight
  · rw [rendered_get terminal row within, screen, List.getElem?_map,
      List.getElem?_range within, Option.map_some,
      screen_row_padded console terminal shown row within]
  · have size : (rendered terminal).length = vgaHeight := by
      have count : terminal.recent.length =
        terminal.lines.length - (terminal.lines.length - vgaHeight) := List.length_drop
      simp only [rendered, List.length_append, List.length_map, List.length_replicate]
      omega
    have rows : (screen console).length = vgaHeight := by
      rw [screen, List.length_map, List.length_range]
    rw [List.getElem?_eq_none (by omega), List.getElem?_eq_none (by omega)]

/-- Whatever is written, the screen is the rendering of the terminal: its last
25 lines padded with NUL cells, and the cursor behind the last character. -/
theorem console_refines_terminal (memory : Memory) (events : List TerminalEvent) :
    let console := run consoleStep (bootConsole memory) events
    let terminal := run terminalStep Terminal.empty events
    screen console = rendered terminal ∧
      console.vgaRow = ((min terminal.lines.length 25 - 1 : Nat) : Int) ∧
      console.vgaCol = (terminal.current.length : Int) := by
  have shown := run_shows memory events
  exact ⟨screen_rendered _ _ shown, shows_row shown, shown.col⟩

end LumenOS.TerminalRefinement
