import LumenOS.BackspaceJoin
import LumenOS.SilentEcho
import LumenOS.StdioModel
import LumenOS.RecordTable

/-!
# Where the console writes

The cursor is a pair of bytes, so whatever the arrow keys have made of it a
cell it stands on lies in the first 41312 bytes from the display's address.
Characters, new lines and keys change no other byte of memory.
-/

namespace LumenOS.ScreenWrites

open LumenOS.ByteMemory LumenOS.StringModel LumenOS.ConsoleModel LumenOS.KeyboardModel
open LumenOS.StdioModel LumenOS.TerminalRefinement LumenOS.BackspaceJoin LumenOS.SilentEcho
open LumenOS.StepRuns LumenOS.RecordTable

set_option autoImplicit false

def reachableBytes : Nat := 2 * (255 * vgaWidth + 256)

def Display (console : Console) : Prop := console.vgaBuffer = ⟨vgaAddress, vgaWidth, vgaHeight⟩

structure Writes (before after : Console) : Prop where
  display : Display after
  memory : ChangesWithin before.memory after.memory vgaAddress reachableBytes

section Calls

variable {before middle after : Console}

theorem writes_self (display : Display before) : Writes before before :=
  ⟨display, changes_none _ _ _⟩

theorem writes_trans (first : Writes before middle) (second : Writes middle after) :
    Writes before after := ⟨second.display, changes_trans first.memory second.memory⟩

theorem writes_same (display : Display before) (buffer : after.vgaBuffer = before.vgaBuffer)
    (memory : after.memory = before.memory) : Writes before after := by
  refine ⟨buffer.trans display, ?_⟩
  rw [memory]
  exact changes_none _ _ _

theorem blank_changes (memory : Memory) (start count cell : Nat)
    (inside : start + count ≤ 255 * vgaWidth + 256) :
    ChangesWithin memory (blankCells memory start count cell) vgaAddress reachableBytes := by
  induction count with
  | zero => exact changes_none _ _ _
  | succ count ih =>
      rw [blankCells, List.range_succ, List.foldl_append]
      refine changes_trans (ih (by omega)) ?_
      have stored := changes_written (blankCells memory start count cell)
        (vgaAddress + 2 * (start + count)) (encodeLE 2 cell)
      rw [encode_le_length] at stored
      unfold reachableBytes
      exact changes_wider stored (by omega) (by omega)

theorem moved_changes {memory moved : Memory} {dest src size : Nat}
    (copied : Moved memory moved dest src 0 size) : ChangesWithin memory moved dest size := by
  intro address outside
  have wrapped : u32 (u32 address) = u32 address := Nat.mod_mod _ _
  have kept := copied.kept (u32 address) (Nat.mod_lt _ (by decide)) ?_
  · unfold readByte at kept ⊢
    rwa [wrapped] at kept
  · by_contra inside
    have here := outside (u32 address - dest) (by omega)
    rw [show dest + (u32 address - dest) = u32 address by omega, wrapped] at here
    exact here rfl

theorem scroll_writes (display : Display before) : Writes before (vgaScroll before 1) := by
  obtain ⟨memory, scrolled⟩ := vga_scroll_memory_only before 1
  constructor
  · rw [scrolled]
    exact display
  · rw [scroll_memory]
    have moved := memmove_moved before.memory vgaAddress (vgaAddress + 160) 3840 (by decide)
      (by decide)
    have raised := changes_wider (moved_changes moved) (Nat.le_refl vgaAddress)
      (show vgaAddress + 3840 ≤ vgaAddress + reachableBytes by decide)
    exact changes_trans raised (blank_changes _ 1920 80 0x0700 (by decide))

theorem newline_writes (display : Display before) : Writes before (vgaNewline before) := by
  have placed : Writes before (vgaPos before 0 (before.vgaRow + 1)) :=
    writes_same display rfl rfl
  unfold vgaNewline
  dsimp only
  split_ifs
  · have scrolled := writes_trans placed (scroll_writes placed.display)
    exact writes_trans scrolled (writes_same scrolled.display rfl rfl)
  · exact placed

theorem set_writes (display : Display before) (a color : Byte) (col row : Int) :
    Writes before (vgaSet before a color col row) := by
  refine ⟨display, ?_⟩
  have colBound : (toUChar col).toNat ≤ 255 := by
    unfold toUChar
    omega
  have rowBound : (toUChar row).toNat ≤ 255 := by
    unfold toUChar
    omega
  have index : before.vgaBuffer.index (toUChar col).toNat (toUChar row).toNat ≤
      255 * vgaWidth + 255 := by
    rw [display]
    refine Nat.le_trans (Nat.mod_le _ _) ?_
    exact Nat.add_le_add (Nat.mul_le_mul_right _ rowBound) colBound
  have stored := changes_written before.memory
    (before.vgaBuffer.address + 2 * before.vgaBuffer.index (toUChar col).toNat (toUChar row).toNat)
    (encodeLE 2 (vgaChar a color).toNat)
  have address : before.vgaBuffer.address = vgaAddress := congrArg TBuffer.address display
  rw [encode_le_length, address] at stored
  unfold vgaSet tbufferSet store16
  dsimp only
  rw [address]
  unfold reachableBytes
  exact changes_wider stored (by omega) (by omega)

theorem put_writes (display : Display before) (a color : Byte) :
    Writes before (vgaPut before a color) := by
  unfold vgaPut
  dsimp only
  split_ifs
  · have opened := newline_writes display
    have stored := writes_trans opened (set_writes opened.display a color
      (vgaNewline before).vgaCol (vgaNewline before).vgaRow)
    exact writes_trans stored (writes_same stored.display rfl rfl)
  · have stored := set_writes display a color before.vgaCol before.vgaRow
    exact writes_trans stored (writes_same stored.display rfl rfl)

theorem call_writes (display : Display before) (call : ConsoleCall) :
    Writes before (performCall before call) := by
  cases call with
  | put c => exact put_writes display c whiteOnBlack
  | newline => exact newline_writes display

theorem calls_write (display : Display before) (calls : List ConsoleCall) :
    Writes before (run performCall before calls) := by
  apply run_invariant_always fun after => Writes before after
  · intro after call written
    exact writes_trans written (call_writes written.display call)
  · exact writes_self display

theorem backspace_writes (display : Display before) : Writes before (backspace before) := by
  have moved : (backspaceMove before).vgaBuffer = before.vgaBuffer ∧
      (backspaceMove before).memory = before.memory := by
    unfold backspaceMove
    dsimp only
    split_ifs
    · exact ⟨rfl, rfl⟩
    · obtain ⟨memory, buffer⟩ := scan_keeps 256 _
      exact ⟨buffer, memory⟩
    · exact ⟨rfl, rfl⟩
  have placed := writes_same display moved.1 moved.2
  exact writes_trans placed (set_writes placed.display 0 whiteOnBlack _ _)

theorem key_writes (keys : Keys) (display : Display keys.console) (scancode : Byte) :
    Writes keys.console (keyStep keys scancode).console := by
  unfold keyStep keyboardGetChar
  dsimp only
  split_ifs
  · exact writes_self display
  · exact writes_self display
  · exact writes_self display
  · exact writes_self display
  · exact newline_writes display
  · exact backspace_writes display
  · exact writes_same display rfl rfl
  · exact writes_same display rfl rfl
  · exact writes_same display rfl rfl
  · exact writes_same display rfl rfl
  · exact writes_self display

theorem keys_write (keys : Keys) (display : Display keys.console) (scancodes : List Byte) :
    Writes keys.console (run keyStep keys scancodes).console := by
  apply run_invariant_always fun (after : Keys) => Writes keys.console after.console
  · intro after scancode written
    exact writes_trans written (key_writes after written.display scancode)
  · exact writes_self display

end Calls

end LumenOS.ScreenWrites
