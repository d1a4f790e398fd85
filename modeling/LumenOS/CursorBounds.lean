import LumenOS.KeyboardModel
import LumenOS.StepRuns

/-!
# When the text cursor stays on the screen

Writing and starting a new line keep the cursor inside 80 columns and 25 rows
from any state inside. The arrow keys and Backspace do not look at the edge
they move towards, and `vga_pos` reduces what they compute modulo 256. The
guard below lists those steps, and a run stays inside exactly when it holds
at each of them.
-/

namespace LumenOS.CursorBounds

open LumenOS.ByteMemory LumenOS.ConsoleModel LumenOS.KeyboardModel LumenOS.StepRuns

set_option autoImplicit false

inductive ConsoleEvent where
  | put (c color : Byte)
  | newline
  | key (scancode : Byte)

def consoleStep (keys : Keys) : ConsoleEvent → Keys
  | .put c color => { keys with console := vgaPut keys.console c color }
  | .newline => { keys with console := vgaNewline keys.console }
  | .key scancode => (keyboardGetChar scancode keys).2

structure OnScreen (console : Console) : Prop where
  colLower : 0 ≤ console.vgaCol
  colUpper : console.vgaCol < 80
  rowLower : 0 ≤ console.vgaRow
  rowUpper : console.vgaRow < 25
  accesses : ∀ index ∈ console.accesses, index < 2000

/-- The invariant adds the width `vga_init` gave the buffer. -/
structure Screened (console : Console) : Prop extends OnScreen console where
  width : console.vgaBuffer.width = 80

/-- A key that moves the cursor is pressed with room to move it. -/
def StaysOnScreen (keys : Keys) : ConsoleEvent → Prop
  | .put _ _ => True
  | .newline => True
  | .key scancode =>
      (scancode = 0x48 → 0 < keys.console.vgaRow) ∧
      (scancode = 0x4B → 0 < keys.console.vgaCol) ∧
      (scancode = 0x4D → keys.console.vgaCol < 79) ∧
      (scancode = 0x50 → keys.console.vgaRow < 24) ∧
      (scancode = 0x0E → 0 < keys.console.vgaCol ∨ 0 < keys.console.vgaRow)

theorem to_uchar_small (value : Int) (lower : 0 ≤ value) (upper : value < 256) :
    toUChar value = value := by
  unfold toUChar
  omega

theorem to_size_small (value : Int) (lower : 0 ≤ value) (upper : value < 256) :
    toSize value = value.toNat := by
  unfold toSize
  omega

theorem index_on_screen (buffer : TBuffer) (width : buffer.width = 80) (x y : Nat)
    (xBound : x < 80) (yBound : y < 25) : buffer.index x y < 2000 := by
  have cell : y * buffer.width + x < 2000 := by
    rw [width]
    omega
  exact lt_of_le_of_lt (Nat.mod_le _ _) cell

theorem screened_pos (console : Console) (width : console.vgaBuffer.width = 80)
    (accesses : ∀ index ∈ console.accesses, index < 2000) (col row : Int)
    (colLower : 0 ≤ col) (colUpper : col < 80) (rowLower : 0 ≤ row) (rowUpper : row < 25) :
    Screened (vgaPos console col row) := by
  have colSame := to_uchar_small col colLower (by omega)
  have rowSame := to_uchar_small row rowLower (by omega)
  refine ⟨⟨?_, ?_, ?_, ?_, accesses⟩, width⟩
  · rwa [vga_pos_col, colSame]
  · rwa [vga_pos_col, colSame]
  · rwa [vga_pos_row, rowSame]
  · rwa [vga_pos_row, rowSame]

theorem accesses_append (accesses : List Nat) (index : Nat)
    (earlier : ∀ i ∈ accesses, i < 2000) (last : index < 2000) :
    ∀ i ∈ accesses ++ [index], i < 2000 := by
  intro i member
  rcases List.mem_append.mp member with before | now
  · exact earlier i before
  · rwa [List.mem_singleton.mp now]

theorem screened_set (console : Console) (a color : Byte) (screened : Screened console) :
    Screened (vgaSet console a color console.vgaCol console.vgaRow) := by
  rcases screened with ⟨⟨colLower, colUpper, rowLower, rowUpper, accesses⟩, width⟩
  have inside : console.vgaBuffer.index (toUChar console.vgaCol).toNat
      (toUChar console.vgaRow).toNat < 2000 := by
    rw [to_uchar_small _ colLower (by omega), to_uchar_small _ rowLower (by omega)]
    exact index_on_screen _ width _ _ (by omega) (by omega)
  exact ⟨⟨colLower, colUpper, rowLower, rowUpper, accesses_append _ _ accesses inside⟩, width⟩

theorem screened_newline (console : Console) (screened : Screened console) :
    Screened (vgaNewline console) := by
  rcases screened with ⟨⟨colLower, colUpper, rowLower, rowUpper, accesses⟩, width⟩
  have cursor := vga_newline_cursor console
  have keeps := vga_newline_keeps console
  have next := to_uchar_small (console.vgaRow + 1) (by omega) (by omega)
  have row : 0 ≤ (vgaNewline console).vgaRow ∧ (vgaNewline console).vgaRow < 25 := by
    rw [cursor.2, next]
    split_ifs with below
    · rw [to_uchar_small _ (by omega) (by omega)]
      omega
    · omega
  refine ⟨⟨?_, ?_, row.1, row.2, ?_⟩, ?_⟩
  · exact Int.le_of_eq cursor.1.symm
  · rw [cursor.1]
    decide
  · rwa [keeps.2]
  · rwa [keeps.1]

theorem screened_put_at (console : Console) (a color : Byte) (screened : Screened console)
    (room : console.vgaCol < 79) :
    Screened (vgaPos (vgaSet console a color console.vgaCol console.vgaRow)
      (console.vgaCol + 1) console.vgaRow) := by
  have written := screened_set console a color screened
  have lower := screened.colLower
  exact screened_pos _ written.width written.accesses _ _ (by omega) (by omega)
    screened.rowLower screened.rowUpper

theorem screened_put (console : Console) (a color : Byte) (screened : Screened console) :
    Screened (vgaPut console a color) := by
  have start : Screened (if console.vgaCol + 1 ≥ (vgaWidth : Int) then vgaNewline console
      else console) ∧
      (if console.vgaCol + 1 ≥ (vgaWidth : Int) then vgaNewline console
        else console).vgaCol < 79 := by
    split_ifs with edge
    · refine ⟨screened_newline console screened, ?_⟩
      rw [(vga_newline_cursor console).1]
      decide
    · simp only [vgaWidth] at edge
      exact ⟨screened, by omega⟩
  exact screened_put_at _ a color start.1 start.2

def looked (console : Console) : Console :=
  (tbufferGet console (toSize console.vgaCol) (toSize console.vgaRow)).2

def cursorCell (console : Console) : Nat :=
  (tbufferGet console (toSize console.vgaCol) (toSize console.vgaRow)).1

theorem screened_looked (console : Console) (screened : Screened console) :
    Screened (looked console) := by
  rcases screened with ⟨⟨colLower, colUpper, rowLower, rowUpper, accesses⟩, width⟩
  have inside : console.vgaBuffer.index (toSize console.vgaCol) (toSize console.vgaRow)
      < 2000 := by
    rw [to_size_small _ colLower (by omega), to_size_small _ rowLower (by omega)]
    exact index_on_screen _ width _ _ (by omega) (by omega)
  exact ⟨⟨colLower, colUpper, rowLower, rowUpper, accesses_append _ _ accesses inside⟩, width⟩

theorem backspace_scan_succ (rounds : Nat) (console : Console) :
    backspaceScan (rounds + 1) console =
      if cursorCell console % 256 = 0 then
        if toUChar (console.vgaCol - 1) = 0 then
          vgaPos (vgaPos (looked console) (console.vgaCol - 1) console.vgaRow)
            (toUChar (console.vgaCol - 1) - 1) (toUChar console.vgaRow)
        else backspaceScan rounds (vgaPos (looked console) (console.vgaCol - 1) console.vgaRow)
      else looked console := rfl

theorem backspace_scan_row (rounds : Nat) (console : Console)
    (lower : 0 ≤ console.vgaRow) (upper : console.vgaRow < 256) :
    (backspaceScan rounds console).vgaRow = console.vgaRow := by
  induction rounds generalizing console with
  | zero => rfl
  | succ rounds ih =>
      have same := to_uchar_small console.vgaRow lower upper
      rw [backspace_scan_succ]
      split_ifs
      · simp only [vga_pos_row, same]
      · rw [ih]
        · exact same
        · rwa [vga_pos_row, same]
        · rwa [vga_pos_row, same]
      · rfl

/-- A blank cell sends the scan one column to the left, or past column zero,
where it ends. -/
theorem backspace_scan_left (rounds : Nat) (console : Console) (screened : Screened console)
    (right : 0 < console.vgaCol) (blank : cursorCell console % 256 = 0) :
    ((backspaceScan (rounds + 1) console).vgaCol = 255 ∧
        (backspaceScan (rounds + 1) console).vgaBuffer.width = 80 ∧
        ∀ index ∈ (backspaceScan (rounds + 1) console).accesses, index < 2000) ∨
      ∃ next, Screened next ∧ next.vgaCol = console.vgaCol - 1 ∧ 0 < next.vgaCol ∧
        backspaceScan (rounds + 1) console = backspaceScan rounds next := by
  have seen := screened_looked console screened
  have upper := screened.colUpper
  have left := to_uchar_small (console.vgaCol - 1) (by omega) (by omega)
  rw [backspace_scan_succ, if_pos blank, left]
  split_ifs with start
  · apply Or.inl
    refine ⟨?_, seen.width, seen.accesses⟩
    rw [vga_pos_col, start]
    decide
  · have moved := screened_pos (looked console) seen.width seen.accesses (console.vgaCol - 1)
      console.vgaRow (by omega) (by omega) screened.rowLower screened.rowUpper
    have column : (vgaPos (looked console) (console.vgaCol - 1) console.vgaRow).vgaCol =
        console.vgaCol - 1 := left
    apply Or.inr
    exact ⟨_, moved, column, by omega, rfl⟩

/-- From a column of the screen the scan stops right of column zero, no
further right than it started, or at 255 after passing column zero. Every
cell it reads is on the row. -/
theorem backspace_scan_bounds (rounds : Nat) (console : Console) (screened : Screened console)
    (right : 0 < console.vgaCol) (enough : console.vgaCol ≤ rounds) :
    ((backspaceScan rounds console).vgaCol = 255 ∨
      0 < (backspaceScan rounds console).vgaCol ∧
        (backspaceScan rounds console).vgaCol ≤ console.vgaCol) ∧
      (backspaceScan rounds console).vgaBuffer.width = 80 ∧
      ∀ index ∈ (backspaceScan rounds console).accesses, index < 2000 := by
  induction rounds generalizing console with
  | zero => omega
  | succ rounds ih =>
      by_cases blank : cursorCell console % 256 = 0
      · rcases backspace_scan_left rounds console screened right blank with
          ⟨passed, kept⟩ | ⟨next, moved, column, still, goes⟩
        · exact ⟨Or.inl passed, kept⟩
        · rw [goes]
          have rest := ih next moved still (by push_cast at enough; omega)
          refine ⟨?_, rest.2⟩
          rcases rest.1 with passed | stopped
          · exact Or.inl passed
          · exact Or.inr ⟨stopped.1, by omega⟩
      · have seen := screened_looked console screened
        rw [backspace_scan_succ, if_neg blank]
        exact ⟨Or.inr ⟨right, Int.le_refl _⟩, seen.width, seen.accesses⟩

theorem backspace_scan_blank (rounds : Nat) (console : Console) (screened : Screened console)
    (right : 0 < console.vgaCol) (enough : console.vgaCol ≤ rounds + 1)
    (blank : cursorCell console % 256 = 0) :
    ((backspaceScan (rounds + 1) console).vgaCol = 255 ∨
      0 < (backspaceScan (rounds + 1) console).vgaCol ∧
        (backspaceScan (rounds + 1) console).vgaCol < console.vgaCol) := by
  rcases backspace_scan_left rounds console screened right blank with
    ⟨passed, _⟩ | ⟨next, moved, column, still, goes⟩
  · exact Or.inl passed
  · rw [goes]
    rcases (backspace_scan_bounds rounds next moved still (by omega)).1 with passed | stopped
    · exact Or.inl passed
    · exact Or.inr ⟨stopped.1, by omega⟩

/-- The column that passed zero comes back as zero, since 255 + 1 is reduced
modulo 256; any other stop is followed by the blank it just left. -/
theorem screened_scanned (console : Console) (screened : Screened console)
    (right : 0 < console.vgaCol) (blank : cursorCell console % 256 = 0) :
    Screened (vgaPos (backspaceScan 256 console) ((backspaceScan 256 console).vgaCol + 1)
      (backspaceScan 256 console).vgaRow) := by
  have upper := screened.colUpper
  have rowUpper := screened.rowUpper
  have bounds := backspace_scan_bounds 256 console screened right (by omega)
  have behind : (backspaceScan 256 console).vgaCol = 255 ∨
      0 < (backspaceScan 256 console).vgaCol ∧
        (backspaceScan 256 console).vgaCol < console.vgaCol :=
    backspace_scan_blank 255 console screened right (by omega) blank
  have row := backspace_scan_row 256 console screened.rowLower (by omega)
  have same := to_uchar_small console.vgaRow screened.rowLower (by omega)
  rw [row]
  rcases behind with passed | stopped
  · have column : (vgaPos (backspaceScan 256 console) ((backspaceScan 256 console).vgaCol + 1)
        console.vgaRow).vgaCol = 0 := by
      rw [vga_pos_col, passed]
      decide
    refine ⟨⟨by omega, by omega, ?_, ?_, bounds.2.2⟩, bounds.2.1⟩
    · rw [vga_pos_row, same]
      exact screened.rowLower
    · rwa [vga_pos_row, same]
  · exact screened_pos _ bounds.2.1 bounds.2.2 _ _ (by omega) (by omega) screened.rowLower rowUpper

/-- Backspace at column zero, in the order the source looks at the cells. -/
theorem backspace_move_up (console : Console) (start : ¬ console.vgaCol > 0) :
    let above := vgaPos console 79 (console.vgaRow - 1)
    let logged := serialWriteChar (looked above) (UInt8.ofNat (cursorCell above))
    backspaceMove console =
      if cursorCell logged % 256 = 0 then
        vgaPos (backspaceScan 256 (looked logged)) ((backspaceScan 256 (looked logged)).vgaCol + 1)
          (backspaceScan 256 (looked logged)).vgaRow
      else looked logged := by
  intro above logged
  unfold backspaceMove
  rw [if_neg start]
  rfl

theorem backspace_move_row (console : Console) (start : ¬ console.vgaCol > 0) :
    (backspaceMove console).vgaRow = toUChar (console.vgaRow - 1) := by
  have lower : 0 ≤ toUChar (console.vgaRow - 1) := by
    unfold toUChar
    omega
  have upper : toUChar (console.vgaRow - 1) < 256 := by
    unfold toUChar
    omega
  have same := to_uchar_small _ lower upper
  rw [backspace_move_up console start]
  split_ifs
  · rw [vga_pos_row, backspace_scan_row 256 _ lower upper]
    exact same
  · rfl

theorem screened_backspace (console : Console) (screened : Screened console)
    (room : 0 < console.vgaCol ∨ 0 < console.vgaRow) : Screened (backspace console) := by
  have upper := screened.colUpper
  have rowUpper := screened.rowUpper
  have lower := screened.rowLower
  have moved : Screened (backspaceMove console) := by
    by_cases right : console.vgaCol > 0
    · unfold backspaceMove
      rw [if_pos right]
      exact screened_pos console screened.width screened.accesses _ _ (by omega) (by omega)
        lower rowUpper
    · have above := screened_pos console screened.width screened.accesses 79
        (console.vgaRow - 1) (by omega) (by omega) (by omega) (by omega)
      have first := screened_looked _ above
      have logged : Screened (serialWriteChar (looked (vgaPos console 79 (console.vgaRow - 1)))
          (UInt8.ofNat (cursorCell (vgaPos console 79 (console.vgaRow - 1))))) :=
        ⟨⟨first.colLower, first.colUpper, first.rowLower, first.rowUpper, first.accesses⟩,
          first.width⟩
      have second := screened_looked _ logged
      rw [backspace_move_up console right]
      split_ifs with blank
      · have column : (looked (serialWriteChar (looked (vgaPos console 79 (console.vgaRow - 1)))
            (UInt8.ofNat (cursorCell (vgaPos console 79 (console.vgaRow - 1)))))).vgaCol = 79 :=
          to_uchar_small 79 (by decide) (by decide)
        exact screened_scanned _ second (by omega) blank
      · exact second
  exact screened_set _ 0 whiteOnBlack moved

theorem key_screened (scancode : Byte) (keys : Keys) (screened : Screened keys.console)
    (guard : StaysOnScreen keys (.key scancode)) :
    Screened (keyboardGetChar scancode keys).2.console := by
  rcases guard with ⟨up, left, right, down, back⟩
  have colLower := screened.colLower
  have colUpper := screened.colUpper
  have rowLower := screened.rowLower
  have rowUpper := screened.rowUpper
  by_cases acts : ActsOnScreen scancode
  · simp only [ActsOnScreen, List.mem_cons, List.not_mem_nil, or_false] at acts
    rcases acts with rfl | rfl | rfl | rfl | rfl | rfl
    · exact screened_newline keys.console screened
    · exact screened_backspace keys.console screened (back rfl)
    · have room := up rfl
      exact screened_pos _ screened.width screened.accesses _ _ colLower colUpper
        (by omega) (by omega)
    · have room := left rfl
      exact screened_pos _ screened.width screened.accesses _ _ (by omega) (by omega)
        rowLower rowUpper
    · have room := right rfl
      exact screened_pos _ screened.width screened.accesses _ _ (by omega) (by omega)
        rowLower rowUpper
    · have room := down rfl
      exact screened_pos _ screened.width screened.accesses _ _ colLower colUpper
        (by omega) (by omega)
  · rw [get_char_console scancode keys acts]
    exact screened

/-- A step the guard refuses leaves the screen at once: the coordinate it
moves is reduced to 255, or to 80 or 25. -/
theorem key_off_screen (scancode : Byte) (keys : Keys) (screened : Screened keys.console)
    (inside : OnScreen (keyboardGetChar scancode keys).2.console) :
    StaysOnScreen keys (.key scancode) := by
  have colLower := screened.colLower
  have colUpper := screened.colUpper
  have rowLower := screened.rowLower
  have rowUpper := screened.rowUpper
  refine ⟨?_, ?_, ?_, ?_, ?_⟩
  · rintro rfl
    have row : toUChar (keys.console.vgaRow - 1) < 25 := inside.rowUpper
    unfold toUChar at row
    omega
  · rintro rfl
    have col : toUChar (keys.console.vgaCol - 1) < 80 := inside.colUpper
    unfold toUChar at col
    omega
  · rintro rfl
    have col : toUChar (keys.console.vgaCol + 1) < 80 := inside.colUpper
    unfold toUChar at col
    omega
  · rintro rfl
    have row : toUChar (keys.console.vgaRow + 1) < 25 := inside.rowUpper
    unfold toUChar at row
    omega
  · rintro rfl
    by_contra corner
    have start : ¬ keys.console.vgaCol > 0 := by omega
    have row : (backspaceMove keys.console).vgaRow < 25 := inside.rowUpper
    rw [backspace_move_row keys.console start] at row
    unfold toUChar at row
    omega

theorem step_screened (keys : Keys) (event : ConsoleEvent) (screened : Screened keys.console)
    (guard : StaysOnScreen keys event) : Screened (consoleStep keys event).console := by
  cases event with
  | put c color => exact screened_put keys.console c color screened
  | newline => exact screened_newline keys.console screened
  | key scancode => exact key_screened scancode keys screened guard

theorem step_on_screen_iff (keys : Keys) (event : ConsoleEvent)
    (screened : Screened keys.console) :
    OnScreen (consoleStep keys event).console ↔ StaysOnScreen keys event := by
  constructor
  · intro inside
    cases event with
    | put c color => trivial
    | newline => trivial
    | key scancode => exact key_off_screen scancode keys screened inside
  · intro guard
    exact (step_screened keys event screened guard).toOnScreen

theorem boot_screened (memory : Memory) : Screened (bootKeys memory).console := by
  have col : (bootKeys memory).console.vgaCol = 0 := rfl
  have row : (bootKeys memory).console.vgaRow = 0 := rfl
  have accesses : (bootKeys memory).console.accesses = [] := rfl
  refine ⟨⟨?_, ?_, ?_, ?_, ?_⟩, rfl⟩
  · omega
  · omega
  · omega
  · omega
  · simp [accesses]

/-- From the boot state the cursor stays on the screen through every operation
of a run, with every cell access inside it, exactly when each key that moves
the cursor is pressed with room on that side. -/
theorem cursor_on_screen_iff (memory : Memory) (events : List ConsoleEvent) :
    (∀ before, before <+: events → OnScreen (run consoleStep (bootKeys memory) before).console) ↔
      EachStep consoleStep StaysOnScreen (bootKeys memory) events := by
  rw [← each_step_exact step_screened step_on_screen_iff (bootKeys memory)
    (boot_screened memory) events]
  exact (each_step_iff_reached (fun keys => OnScreen keys.console) (bootKeys memory)
    (boot_screened memory).toOnScreen events).symm

/-- The up arrow on the top row puts the cursor on row 255. -/
theorem cursor_leaves_by_up_arrow :
    ¬ ∀ before, before <+: [ConsoleEvent.key 0x48] →
      OnScreen (run consoleStep (bootKeys fun _ => 0) before).console := by
  intro always
  have row := (always _ List.prefix_rfl).rowUpper
  revert row
  decide

end LumenOS.CursorBounds
