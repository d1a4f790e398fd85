import LumenOS.ScrollLines
import LumenOS.StdioModel
import LumenOS.TerminatedText

/-!
# The length of a printed string

`vga_print` hands the length of its string to `vga_write`, whose parameter has
sixteen bits. Of a longer string only what the cut length counts is printed.
The column of the cursor comes round every 79 characters and shows the loss of
any number of them that 79 does not divide.
-/

namespace LumenOS.PrintLength

open LumenOS.ByteMemory LumenOS.ConsoleModel LumenOS.StdioModel LumenOS.StepRuns
open LumenOS.TerminatedText LumenOS.ScrollLines LumenOS.BackspaceJoin

set_option autoImplicit false

def strlenFrom (memory : Memory) (str : Nat) : Nat → Nat → Option Nat
  | 0, _ => none
  | rounds + 1, len =>
      if readByte memory (str + len) = 0 then some len
      else strlenFrom memory str rounds (u32 (len + 1))

def strlen (rounds : Nat) (memory : Memory) (str : Nat) : Option Nat :=
  strlenFrom memory str rounds 0

/-- The counter of the loop has as many bits as the length and does not wrap. -/
def vgaWrite (memory : Memory) (console : Console) (a : Nat) (color : Byte) (length : Nat) :
    Console :=
  (List.range length).foldl (fun console i => vgaPut console (readByte memory (a + i)) color)
    console

/-- The string is read from a memory of its own. -/
def vgaPrintAt (rounds : Nat) (memory : Memory) (console : Console) (a : Nat) (color : Byte) :
    Option Console :=
  (strlen rounds memory a).map fun length => vgaWrite memory console a color (u16 length)

def putAll (console : Console) (color : Byte) (text : List Byte) : Console :=
  run (fun console c => vgaPut console c color) console text

/-- The same cells and the same cursor. -/
structure SameView (left right : Console) : Prop where
  screen : SameScreen left.memory right.memory
  row : left.vgaRow = right.vgaRow
  col : left.vgaCol = right.vgaCol

section Printing

variable {memory : Memory} {a : Nat} {text : List Byte}

theorem strlen_from_ends (string : StringAt memory a text) (len : Nat)
    (within : len ≤ text.length) (rounds : Nat) (enough : text.length - len < rounds) :
    strlenFrom memory a rounds len = some text.length := by
  have fits := string.fits
  induction rounds generalizing len with
  | zero => omega
  | succ rounds ih =>
      rw [strlenFrom]
      by_cases last : len = text.length
      · rw [last, if_pos (terminated_end string.spelled)]
      · have inside : len < text.length := by omega
        have nonzero : readByte memory (a + len) ≠ 0 := by
          rw [terminated_get string.spelled len inside]
          exact terminated_no_zero string.spelled _ (List.getElem_mem _)
        have next : u32 (len + 1) = len + 1 := Nat.mod_eq_of_lt (by omega)
        rw [if_neg nonzero, next]
        exact ih (len + 1) (by omega) (by omega)

theorem vga_write_puts (string : StringAt memory a text) (console : Console) (color : Byte)
    (length : Nat) (within : length ≤ text.length) :
    vgaWrite memory console a color length = putAll console color (text.take length) := by
  induction length with
  | zero => rfl
  | succ length ih =>
      have inside : length < text.length := by omega
      have earlier := ih (by omega)
      unfold vgaWrite putAll at earlier ⊢
      rw [List.range_succ, List.foldl_append, earlier, List.take_succ_eq_append_getElem inside,
        run_append, List.foldl_cons, List.foldl_nil, run_cons, run_nil,
        terminated_get string.spelled length inside]

/-- What is printed of a string, whatever its length. -/
theorem vga_print_puts (string : StringAt memory a text) (console : Console) (color : Byte)
    (rounds : Nat) (enough : text.length < rounds) :
    vgaPrintAt rounds memory console a color =
      some (putAll console color (text.take (u16 text.length))) := by
  have within : u16 text.length ≤ text.length := Nat.mod_le _ _
  rw [vgaPrintAt, strlen, strlen_from_ends string 0 (Nat.zero_le _) rounds (by omega),
    Option.map_some, vga_write_puts string console color _ within]

/-- The calls that `printf` makes through `vga_print` are these in white on black. -/
theorem vga_print_calls (console : Console) (text : List Byte) :
    run performCall console (vgaPrint text) =
      putAll console whiteOnBlack (text.take (u16 text.length)) := by
  unfold vgaPrint putAll
  generalize text.take (u16 text.length) = taken
  induction taken generalizing console with
  | nil => rfl
  | cons c taken ih => exact ih (vgaPut console c whiteOnBlack)

end Printing

section Columns

def putColumn (col : Nat) : Nat := if col < 79 then col else 0

theorem put_column (console : Console) (col : Nat) (here : console.vgaCol = (col : Int))
    (c color : Byte) : (vgaPut console c color).vgaCol = (putColumn col + 1 : Nat) := by
  have width : vgaWidth = 80 := rfl
  unfold vgaPut putColumn
  by_cases room : col < 79
  · rw [if_neg (by omega), if_pos room]
    change toUChar (console.vgaCol + 1) = _
    rw [here, toUChar]
    omega
  · rw [if_pos (by omega), if_neg room]
    change toUChar ((vgaNewline console).vgaCol + 1) = _
    rw [(vga_newline_cursor console).1]
    rfl

theorem put_all_column (console : Console) (color : Byte) (col : Nat)
    (here : console.vgaCol = (col : Int)) (text : List Byte) (some_text : text ≠ []) :
    (putAll console color text).vgaCol =
      ((putColumn col + (text.length - 1)) % 79 + 1 : Nat) := by
  unfold putAll
  induction text using List.reverseRecOn with
  | nil => exact absurd rfl some_text
  | append_singleton text c ih =>
      rw [run_append, run_cons, run_nil]
      by_cases first : text = []
      · have small : putColumn col < 79 := by
          rw [putColumn]
          split_ifs <;> omega
        subst first
        rw [run_nil, put_column console col here]
        simp only [List.nil_append, List.length_singleton, Nat.sub_self, Nat.add_zero,
          Nat.mod_eq_of_lt small]
      · have length : 0 < text.length := List.length_pos_iff.mpr first
        rw [put_column _ _ (ih first), List.length_append, List.length_singleton, putColumn]
        split_ifs <;> omega

end Columns

theorem column_shows_loss (console : Console) (color : Byte) (col : Nat)
    (here : console.vgaCol = (col : Int)) (text : List Byte) (long : 65536 ≤ text.length)
    (same : (putAll console color (text.take (u16 text.length))).vgaCol =
      (putAll console color text).vgaCol) : 79 ∣ text.length / 65536 := by
  have cut : u16 text.length = text.length % 65536 := rfl
  have length : (text.take (u16 text.length)).length = text.length % 65536 := by
    rw [List.length_take, cut]
    omega
  have whole : text ≠ [] := by
    rintro rfl
    exact absurd long (by decide)
  rw [put_all_column console color col here text whole] at same
  apply Nat.dvd_of_mod_eq_zero
  by_cases nothing : text.take (u16 text.length) = []
  · have printed : (putAll console color (text.take (u16 text.length))).vgaCol = (col : Int) := by
      rw [nothing]
      exact here
    rw [nothing, List.length_nil] at length
    rw [printed, putColumn] at same
    split_ifs at same <;> omega
  · have some_printed := List.length_pos_iff.mpr nothing
    rw [put_all_column console color col here _ nothing, length] at same
    omega

theorem put_all_last {console : Console} {row col : Nat} (here : At console row col) (color : Byte)
    (text : List Byte) (c : Byte) :
    ∃ cellRow cellCol, At (putAll console color (text ++ [c])) cellRow (cellCol + 1) ∧
      cell (putAll console color (text ++ [c])).memory cellRow cellCol =
        (vgaChar c color).toNat := by
  have placed : ∃ row col, At (putAll console color text) row col := by
    unfold putAll
    induction text using List.reverseRecOn with
    | nil => exact ⟨row, col, here⟩
    | append_singleton text d ih =>
        obtain ⟨row, col, before⟩ := ih
        obtain ⟨cellRow, cellCol, next, -⟩ := at_put before d color
        rw [run_append]
        exact ⟨cellRow, cellCol + 1, next⟩
  obtain ⟨row, col, before⟩ := placed
  have put := at_put before c color
  unfold putAll at put ⊢
  rw [run_append]
  exact put

theorem same_view_last {console : Console} {row col : Nat} (here : At console row col)
    (color : Byte) (left right : List Byte) (c d : Byte)
    (same : SameView (putAll console color (left ++ [c])) (putAll console color (right ++ [d]))) :
    c = d := by
  obtain ⟨leftRow, leftCol, leftAt, leftCell⟩ := put_all_last here color left c
  obtain ⟨rightRow, rightCol, rightAt, rightCell⟩ := put_all_last here color right d
  have rows : leftRow = rightRow := by
    have equal := same.row
    rw [leftAt.vgaRow, rightAt.vgaRow] at equal
    omega
  have cols : leftCol = rightCol := by
    have equal := same.col
    rw [leftAt.vgaCol, rightAt.vgaCol] at equal
    omega
  have bound := leftAt.colBound
  have cells := same.screen leftRow leftCol leftAt.rowBound (by omega)
  rw [leftCell, rows, cols, rightCell] at cells
  rw [← vga_char_low c color, ← vga_char_low d color, cells]

/-- All strings of a length are printed whole, in any colour and from any console. -/
def PrintsWhole (length : Nat) : Prop :=
  ∀ rounds memory console a color text, text.length = length → StringAt memory a text →
    length < rounds → ∃ printed, vgaPrintAt rounds memory console a color = some printed ∧
      SameView printed (putAll console color text)

theorem prints_whole_short {length : Nat} (short : length < 65536) : PrintsWhole length := by
  intro rounds memory console a color text equal string enough
  have whole : u16 text.length = text.length := Nat.mod_eq_of_lt (by omega)
  refine ⟨_, vga_print_puts string console color rounds (by omega), ?_⟩
  rw [whole, List.take_length]
  exact ⟨fun _ _ _ _ => rfl, rfl, rfl⟩

section Long

def lastDiffers (length : Nat) : List Byte := List.replicate length 97 ++ [98]

def lastDiffersMemory (length : Nat) : Memory := fun address =>
  (lastDiffers length).getD (address - 1) 0

theorem last_differs_length (length : Nat) : (lastDiffers length).length = length + 1 := by
  rw [lastDiffers, List.length_append, List.length_replicate, List.length_singleton]

theorem last_differs_nonempty (length : Nat) : lastDiffers length ≠ [] := by
  rw [← List.length_pos_iff, last_differs_length]
  exact Nat.succ_pos length

theorem last_differs_string (length : Nat) (fits : length + 2 < 2 ^ 32) :
    StringAt (lastDiffersMemory length) 1 (lastDiffers length) := by
  have size := last_differs_length length
  have reads : ∀ i, i ≤ length + 1 →
      readByte (lastDiffersMemory length) (1 + i) = (lastDiffers length).getD i 0 := by
    intro i bound
    have address : u32 (1 + i) - 1 = i := by
      rw [u32, Nat.mod_eq_of_lt (by omega)]
      omega
    rw [readByte, lastDiffersMemory, address]
  refine ⟨terminated_of_get ?_ ?_, by decide, by omega⟩
  · intro i c symbol
    obtain ⟨inside, equal⟩ := List.getElem?_eq_some_iff.mp symbol
    have member : c ∈ lastDiffers length := by
      rw [← equal]
      exact List.getElem_mem inside
    refine ⟨?_, ?_⟩
    · rw [reads i (by omega), List.getD_eq_getElem?_getD, symbol]
      rfl
    · rcases List.mem_append.mp member with repeated | last
      · rw [List.eq_of_mem_replicate repeated]
        decide
      · rw [List.mem_singleton.mp last]
        decide
  · rw [size, reads _ (Nat.le_refl _), List.getD_eq_default _ _ (by omega)]

/-- A longer string loses its last character. -/
theorem prints_not_whole {length : Nat} (long : 65536 ≤ length) (fits : length + 1 < 2 ^ 32) :
    ¬ PrintsWhole length := by
  obtain ⟨before, rfl⟩ : ∃ before, length = before + 1 := ⟨length - 1, by omega⟩
  intro whole
  have size := last_differs_length before
  have cut : u16 (before + 1) ≤ before := by
    rw [u16]
    omega
  have here : At (bootConsole fun _ => 0) 0 0 := ⟨rfl, rfl, rfl, by decide, by decide⟩
  have string := last_differs_string before (by omega)
  obtain ⟨printed, prints, same⟩ := whole (before + 2) (lastDiffersMemory before)
    (bootConsole fun _ => 0) 1 whiteOnBlack (lastDiffers before) size string (by omega)
  have puts := vga_print_puts string (bootConsole fun _ => 0) whiteOnBlack (before + 2) (by omega)
  have taken : (lastDiffers before).take (u16 (before + 1)) =
      List.replicate (u16 (before + 1)) 97 := by
    rw [lastDiffers, List.take_append_of_le_length (by simpa using cut), List.take_replicate,
      Nat.min_eq_left cut]
  rw [prints, size, taken] at puts
  obtain rfl := Option.some.inj puts
  cases count : u16 (before + 1) with
  | zero =>
      have column := same.col
      rw [count, put_all_column _ _ 0 rfl _ (last_differs_nonempty before)] at column
      change (0 : Int) = _ at column
      omega
  | succ count' =>
      rw [count, List.replicate_succ'] at same
      have equal := same_view_last here whiteOnBlack _ _ 97 98 same
      exact absurd equal (by decide)

end Long

/-- The strings of a length are all printed whole exactly below 65536
characters. Every single longer one leaves the cursor elsewhere, unless 79
divides the multiples of 65536 characters that are lost. -/
theorem vga_print_whole_iff (length : Nat) (fits : length + 1 < 2 ^ 32) :
    (PrintsWhole length ↔ length < 65536) ∧
      ∀ rounds memory console a color text printed, text.length = length →
        StringAt memory a text → length < rounds → 0 ≤ console.vgaCol →
        vgaPrintAt rounds memory console a color = some printed →
        SameView printed (putAll console color text) →
        length < 65536 ∨ 79 ∣ length / 65536 := by
  refine ⟨⟨fun whole => ?_, prints_whole_short⟩, ?_⟩
  · by_contra long
    exact prints_not_whole (by omega) fits whole
  · rintro rounds memory console a color text printed rfl string enough column prints same
    rw [vga_print_puts string console color rounds enough] at prints
    obtain rfl := Option.some.inj prints
    by_cases short : text.length < 65536
    · exact .inl short
    · have col := Int.toNat_of_nonneg column
      exact .inr (column_shows_loss console color _ col.symm text (by omega) same.col)

/-- The first length past sixteen bits. -/
theorem vga_print_whole_first :
    65536 + 1 < 2 ^ 32 ∧
      ((PrintsWhole 65536 ↔ 65536 < 65536) ∧
        ∀ rounds memory console a color text printed, text.length = 65536 →
          StringAt memory a text → 65536 < rounds → 0 ≤ console.vgaCol →
          vgaPrintAt rounds memory console a color = some printed →
          SameView printed (putAll console color text) →
          65536 < 65536 ∨ 79 ∣ 65536 / 65536) :=
  have fits : 65536 + 1 < 2 ^ 32 := by decide
  ⟨fits, vga_print_whole_iff 65536 fits⟩

/-- 65536 characters: nothing at all is printed. -/
theorem long_string_not_printed :
    StringAt (lastDiffersMemory 65535) 1 (lastDiffers 65535) ∧
      vgaPrintAt 65537 (lastDiffersMemory 65535) (bootConsole fun _ => 0) 1 whiteOnBlack =
        some (bootConsole fun _ => 0) ∧
      ¬ SameView (bootConsole fun _ => 0)
        (putAll (bootConsole fun _ => 0) whiteOnBlack (lastDiffers 65535)) := by
  have string := last_differs_string 65535 (by decide)
  have size : (lastDiffers 65535).length = 65536 := last_differs_length 65535
  refine ⟨string, ?_, ?_⟩
  · rw [vga_print_puts string _ _ _ (by omega), size]
    rfl
  · intro same
    have column := same.col
    rw [put_all_column _ _ 0 rfl _ (last_differs_nonempty 65535)] at column
    change (0 : Int) = _ at column
    omega

end LumenOS.PrintLength
