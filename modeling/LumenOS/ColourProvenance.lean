import LumenOS.ScrollLines
import LumenOS.StepRuns

/-!
# The colour of a character

The console is run beside a record of which `vga_put` each cell comes from.
Scrolling moves the record with the cells. `VGA_CHAR` extends the sign of the
character over the high byte, so a character from 128 on has a colour of all
ones, whatever colour was asked for.
-/

namespace LumenOS.ColourProvenance

open LumenOS.ByteMemory LumenOS.ConsoleModel LumenOS.TerminalRefinement LumenOS.BackspaceJoin
open LumenOS.CursorBounds LumenOS.ScrollLines LumenOS.StepRuns

set_option autoImplicit false

inductive TextCall where
  | put (c color : Byte)
  | newline

/-- The console, and for each cell the character and the colour of the call
that wrote it, if one of the calls did. -/
structure Traced where
  console : Console
  origin : Nat → Nat → Option (Byte × Byte)

/-- A new line below the last row takes the cells up with it. -/
def newlineTraced (state : Traced) : Traced where
  console := vgaNewline state.console
  origin :=
    if toUChar (state.console.vgaRow + 1) > 24 then
      fun row col => if row + 1 < vgaHeight then state.origin (row + 1) col else none
    else state.origin

def putTraced (state : Traced) (c color : Byte) : Traced :=
  let wrapped :=
    if state.console.vgaCol + 1 ≥ (vgaWidth : Int) then newlineTraced state else state
  { console := vgaPut state.console c color
    origin := fun row col =>
      if (row : Int) = wrapped.console.vgaRow ∧ (col : Int) = wrapped.console.vgaCol then
        some (c, color)
      else wrapped.origin row col }

def tracedStep (state : Traced) : TextCall → Traced
  | .put c color => putTraced state c color
  | .newline => newlineTraced state

def untraced (console : Console) : Traced where
  console := console
  origin := fun _ _ => none

/-- Each cell that comes from a call has the character and the colour of it. -/
def ColoursKept (state : Traced) : Prop :=
  ∀ row col c color, row < vgaHeight → col < vgaWidth → state.origin row col = some (c, color) →
    cell state.console.memory row col % 256 = c.toNat ∧
      cell state.console.memory row col / 256 = color.toNat

/-- The sign of the character does not show in the colour. -/
def SignHidden (c color : Byte) : Prop := c.toNat < 128 ∨ color = 0xFF

def TextCall.signHidden : TextCall → Prop
  | .put c color => SignHidden c color
  | .newline => True

section Packing

theorem sign_extended_high (c : Byte) :
    c.toInt8.toInt16.toUInt16.toNat >>> 8 = if c.toNat < 128 then 0 else 255 := by
  have each : ∀ n : Fin 256, (UInt8.ofNat n.val).toInt8.toInt16.toUInt16.toNat >>> 8 =
      if n.val < 128 then 0 else 255 := by decide +kernel
  have bound : c.toNat < 256 := c.toNat_lt
  have here := each ⟨c.toNat, bound⟩
  rwa [UInt8.ofNat_toNat] at here

theorem vga_char_high (c color : Byte) :
    (vgaChar c color).toNat / 256 = if c.toNat < 128 then color.toNat else 255 := by
  have colourBound : color.toNat < 256 := color.toNat_lt
  have shifted : (color.toUInt16 <<< 8).toNat = color.toNat * 256 := by
    rw [UInt16.toNat_shiftLeft]
    change color.toNat <<< 8 % 65536 = color.toNat * 256
    rw [Nat.shiftLeft_eq]
    omega
  have high : (color.toNat * 256) >>> 8 = color.toNat := by
    rw [Nat.shiftRight_eq_div_pow]
    omega
  have quotient : (vgaChar c color).toNat / 256 = (vgaChar c color).toNat >>> 8 :=
    (Nat.shiftRight_eq_div_pow _ 8).symm
  rw [quotient, vgaChar, UInt16.toNat_or, shifted, Nat.shiftRight_or_distrib, high,
    sign_extended_high]
  split_ifs
  · exact Nat.zero_or _
  · have each : ∀ n : Fin 256, 255 ||| n.val = 255 := by decide +kernel
    exact each ⟨color.toNat, colourBound⟩

theorem vga_char_low_nat (c color : Byte) : (vgaChar c color).toNat % 256 = c.toNat := by
  have low := congrArg UInt8.toNat (vga_char_low c color)
  rwa [UInt8.toNat_ofNat'] at low

/-- The packed cell has the colour exactly where the sign does not show. -/
theorem vga_char_colour_iff (c color : Byte) :
    (vgaChar c color).toNat / 256 = color.toNat ↔ SignHidden c color := by
  rw [vga_char_high, SignHidden]
  split_ifs with ascii
  · exact iff_of_true rfl (.inl ascii)
  · constructor
    · intro same
      exact .inr (UInt8.toNat_inj.mp same.symm)
    · intro either
      rw [either.resolve_left ascii]
      rfl

end Packing

section Steps

variable {console : Console} {row col : Nat}

/-- A new line leaves the cells, or moves them up with the record. -/
theorem newline_cells (state : Traced) {cellRow cellCol : Nat} (rowBound : cellRow < vgaHeight)
    (colBound : cellCol < vgaWidth) (c color : Byte)
    (written : (newlineTraced state).origin cellRow cellCol = some (c, color)) :
    ∃ source, source < vgaHeight ∧ state.origin source cellCol = some (c, color) ∧
      cell (vgaNewline state.console).memory cellRow cellCol =
        cell state.console.memory source cellCol := by
  simp only [newlineTraced] at written
  by_cases scrolls : toUChar (state.console.vgaRow + 1) > 24
  · rw [if_pos scrolls] at written
    by_cases above : cellRow + 1 < vgaHeight
    · rw [if_pos above] at written
      refine ⟨cellRow + 1, above, written, ?_⟩
      rw [newline_memory_full _ scrolls, cell_scroll _ rowBound colBound 1 (by decide),
        if_pos above]
      rfl
    · rw [if_neg above] at written
      cases written
  · rw [if_neg scrolls] at written
    refine ⟨cellRow, rowBound, written, ?_⟩
    rw [newline_memory_room _ scrolls]

structure Recorded (state : Traced) : Prop where
  cursor : ∃ row col, At state.console row col
  cells : ∀ row col c color, row < vgaHeight → col < vgaWidth →
    state.origin row col = some (c, color) →
      cell state.console.memory row col = (vgaChar c color).toNat

theorem recorded_newline {state : Traced} (recorded : Recorded state) :
    Recorded (newlineTraced state) := by
  obtain ⟨row, col, here⟩ := recorded.cursor
  refine ⟨⟨_, _, at_newline here⟩, ?_⟩
  intro cellRow cellCol c color rowBound colBound written
  obtain ⟨source, sourceBound, origin, moved⟩ :=
    newline_cells state rowBound colBound c color written
  exact moved.trans (recorded.cells source cellCol c color sourceBound colBound origin)

theorem recorded_set {state : Traced} (recorded : Recorded state) (here : At state.console row col)
    (room : col + 1 < vgaWidth) (c color : Byte) :
    Recorded
      { console := vgaPos (vgaSet state.console c color state.console.vgaCol state.console.vgaRow)
          (state.console.vgaCol + 1) state.console.vgaRow
        origin := fun cellRow cellCol =>
          if (cellRow : Int) = state.console.vgaRow ∧ (cellCol : Int) = state.console.vgaCol then
            some (c, color)
          else state.origin cellRow cellCol } := by
  obtain ⟨next, stored⟩ := at_set_next here room c color
  refine ⟨⟨row, col + 1, next⟩, ?_⟩
  · intro cellRow cellCol d shade rowBound colBound written
    have same : ((cellRow : Int) = state.console.vgaRow ∧ (cellCol : Int) = state.console.vgaCol) ↔
        (cellRow = row ∧ cellCol = col) := by
      rw [here.vgaRow, here.vgaCol]
      omega
    dsimp only at written ⊢
    rw [stored, cell_store _ _ rowBound colBound here.rowBound here.colBound]
    by_cases cursor : cellRow = row ∧ cellCol = col
    · rw [if_pos (same.mpr cursor)] at written
      obtain ⟨rfl, rfl⟩ := Prod.mk.inj (Option.some.inj written)
      rw [if_pos cursor]
      exact Nat.mod_eq_of_lt (vgaChar c color).toNat_lt
    · rw [if_neg (mt same.mp cursor)] at written
      rw [if_neg cursor]
      exact recorded.cells cellRow cellCol d shade rowBound colBound written

theorem recorded_put {state : Traced} (recorded : Recorded state) (c color : Byte) :
    Recorded (putTraced state c color) := by
  obtain ⟨row, col, here⟩ := recorded.cursor
  have bound := here.colBound
  have width : vgaWidth = 80 := rfl
  have column := here.vgaCol
  by_cases wraps : state.console.vgaCol + 1 ≥ (vgaWidth : Int)
  · have put := recorded_set (recorded_newline recorded) (at_newline here) (by decide) c color
    rw [putTraced, vgaPut, if_pos wraps, if_pos wraps]
    exact put
  · have put := recorded_set recorded here (by omega) c color
    rw [putTraced, vgaPut, if_neg wraps, if_neg wraps]
    exact put

theorem recorded_step (state : Traced) (call : TextCall) (recorded : Recorded state) :
    Recorded (tracedStep state call) := by
  cases call with
  | put c color => exact recorded_put recorded c color
  | newline => exact recorded_newline recorded

theorem put_origin {state : Traced} (recorded : Recorded state) (c color : Byte) :
    ∃ row col, row < vgaHeight ∧ col < vgaWidth ∧
      (putTraced state c color).origin row col = some (c, color) := by
  obtain ⟨row, col, here⟩ := recorded.cursor
  by_cases wraps : state.console.vgaCol + 1 ≥ (vgaWidth : Int)
  · have moved := at_newline here
    refine ⟨_, _, moved.rowBound, moved.colBound, ?_⟩
    simp only [putTraced, if_pos wraps]
    exact if_pos ⟨moved.vgaRow.symm, moved.vgaCol.symm⟩
  · refine ⟨row, col, here.rowBound, here.colBound, ?_⟩
    simp only [putTraced, if_neg wraps]
    exact if_pos ⟨here.vgaRow.symm, here.vgaCol.symm⟩

end Steps

/-- The record holds calls with hidden signs only. -/
def OriginsHidden (state : Traced) : Prop :=
  ∀ row col c color, state.origin row col = some (c, color) → SignHidden c color

theorem hidden_newline {state : Traced} (hidden : OriginsHidden state) :
    OriginsHidden (newlineTraced state) := by
  intro row col c color written
  simp only [newlineTraced] at written
  split_ifs at written with scrolls
  · dsimp only at written
    split_ifs at written with above
    exact hidden _ _ _ _ written
  · exact hidden _ _ _ _ written

theorem hidden_set {wrapped : Traced} (hidden : OriginsHidden wrapped) (console : Console)
    {c color : Byte} (sign : SignHidden c color) :
    OriginsHidden
      { console := console
        origin := fun row col =>
          if (row : Int) = wrapped.console.vgaRow ∧ (col : Int) = wrapped.console.vgaCol then
            some (c, color)
          else wrapped.origin row col } := by
  intro row col d shade written
  dsimp only at written
  split_ifs at written with cursor
  · obtain ⟨rfl, rfl⟩ := Prod.mk.inj (Option.some.inj written)
    exact sign
  · exact hidden _ _ _ _ written

theorem hidden_step (state : Traced) (call : TextCall) (hidden : OriginsHidden state)
    (sign : call.signHidden) : OriginsHidden (tracedStep state call) := by
  cases call with
  | newline => exact hidden_newline hidden
  | put c color =>
      have wrapped : OriginsHidden
          (if state.console.vgaCol + 1 ≥ (vgaWidth : Int) then newlineTraced state else state) := by
        split_ifs
        · exact hidden_newline hidden
        · exact hidden
      exact hidden_set wrapped _ sign

/-- Over a recorded screen the colours are kept exactly where no sign shows. -/
theorem colours_kept_of_hidden {state : Traced} (recorded : Recorded state)
    (hidden : OriginsHidden state) : ColoursKept state := by
  intro row col c color rowBound colBound written
  rw [recorded.cells row col c color rowBound colBound written]
  exact ⟨vga_char_low_nat c color, (vga_char_colour_iff c color).mpr (hidden _ _ _ _ written)⟩

theorem sign_hidden_of_kept {state : Traced} (recorded : Recorded state) (c color : Byte)
    (kept : ColoursKept (putTraced state c color)) : SignHidden c color := by
  obtain ⟨row, col, rowBound, colBound, written⟩ := put_origin recorded c color
  have holds := (kept row col c color rowBound colBound written).2
  rw [(recorded_put recorded c color).cells row col c color rowBound colBound written] at holds
  exact (vga_char_colour_iff c color).mp holds

def callStep (console : Console) : TextCall → Console
  | .put c color => vgaPut console c color
  | .newline => vgaNewline console

/-- The record does not disturb the console. -/
theorem traced_run_console (console : Console) (calls : List TextCall) :
    (run tracedStep (untraced console) calls).console = run callStep console calls :=
  run_simulation Traced.console callStep (fun _ call _ => by cases call <;> rfl)
    (untraced console) calls (each_step_of_all tracedStep _ fun _ _ => trivial)

/-- From a screen with the cursor on it, every character keeps its colour at
every point of a run exactly where no call has a character from 128 on, except
in the colour of all ones. -/
theorem colours_kept_iff (console : Console) (row col : Nat) (calls : List TextCall)
    (here : At console row col) :
    (∀ before, before <+: calls → ColoursKept (run tracedStep (untraced console) before)) ↔
      ∀ call ∈ calls, call.signHidden := by
  have start : Recorded (untraced console) :=
    ⟨⟨row, col, here⟩, fun _ _ _ _ _ _ nothing => absurd nothing (by simp [untraced])⟩
  have recorded := fun before => run_invariant_always Recorded recorded_step _ start before
  constructor
  · intro kept call member
    obtain ⟨before, after, rfl⟩ := List.append_of_mem member
    have leading : before ++ [call] <+: before ++ call :: after := by simp
    have here := kept _ leading
    rw [run_append] at here
    cases call with
    | put c color => exact sign_hidden_of_kept (recorded before) c color here
    | newline => trivial
  · intro hidden before leading
    have good : EachStep tracedStep (fun _ call => call.signHidden) (untraced console) calls :=
      each_step_of_all tracedStep (untraced console) hidden
    have origins : OriginsHidden (run tracedStep (untraced console) before) :=
      reached_invariant hidden_step _ (fun _ _ _ _ nothing => by simp [untraced] at nothing)
        calls good before leading
    exact colours_kept_of_hidden (recorded before) origins

/-- Two letters and a new line on the screen as it is set up. -/
theorem colours_kept_two :
    At (bootConsole fun _ => 0) 0 0 ∧
      ((∀ before, before <+: [TextCall.put 65 2, .newline, .put 66 4] →
          ColoursKept (run tracedStep (untraced (bootConsole fun _ => 0)) before)) ↔
        ∀ call ∈ [TextCall.put 65 2, .newline, .put 66 4], call.signHidden) :=
  have here : At (bootConsole fun _ => 0) 0 0 := ⟨rfl, rfl, rfl, by decide, by decide⟩
  ⟨here, colours_kept_iff _ 0 0 _ here⟩

/-- A character of 200 in green comes out in bright white on bright white. -/
theorem high_character_loses_colour :
    (run tracedStep (untraced (bootConsole fun _ => 0)) [.put 200 2]).origin 0 0 = some (200, 2) ∧
      (vgaChar 200 2).toNat = 0xFFC8 ∧
      ¬ ColoursKept (run tracedStep (untraced (bootConsole fun _ => 0)) [.put 200 2]) := by
  have here : At (bootConsole fun _ => 0) 0 0 := ⟨rfl, rfl, rfl, by decide, by decide⟩
  have start : Recorded (untraced (bootConsole fun _ => 0)) :=
    ⟨⟨0, 0, here⟩, fun _ _ _ _ _ _ nothing => absurd nothing (by simp [untraced])⟩
  refine ⟨rfl, by decide +kernel, ?_⟩
  intro kept
  have hidden := sign_hidden_of_kept start 200 2 kept
  exact absurd hidden (by rw [SignHidden]; decide)

end LumenOS.ColourProvenance
