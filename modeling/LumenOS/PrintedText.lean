import LumenOS.LineWrapping
import LumenOS.PrintfAgreement
import LumenOS.TerminalRefinement

/-!
# What a run of `printf` shows

The calls put characters and start lines one by one and leave the screen to the
console. Seen from outside, the texts of all calls run on as one text, broken
at its line breaks and at 79 columns, and the screen is its last 25 lines.
-/

namespace LumenOS.PrintedText

open LumenOS.ByteMemory LumenOS.ConsoleModel LumenOS.StdioModel LumenOS.PrintfAgreement
open LumenOS.TerminalRefinement LumenOS.StepRuns LumenOS.LineWrapping

set_option autoImplicit false

def breaksLine (c : Byte) : Bool := decide (IsLineBreak c)

/-- The last 25 lines from the top, NUL where there is no character. -/
def page (lines : List (List Byte)) : List (List Byte) :=
  let recent := lines.drop (lines.length - vgaHeight)
  recent.map padded ++ List.replicate (vgaHeight - recent.length) (List.replicate vgaWidth 0)

structure ShowsLines (console : Console) (lines : List (List Byte)) : Prop where
  screen : screen console = page lines
  row : console.vgaRow = ((min lines.length 25 - 1 : Nat) : Int)
  col : console.vgaCol = ((lines.getLast?.getD []).length : Int)

section Typing

def eventOf (c : Byte) (nonzero : c ≠ 0) : TerminalEvent :=
  if IsLineBreak c then .newline else .put c whiteOnBlack nonzero

def sheetOf (terminal : Terminal) : Sheet Byte := ⟨terminal.finished, terminal.current⟩

theorem event_types (terminal : Terminal) (c : Byte) (nonzero : c ≠ 0) :
    sheetOf (terminalStep terminal (eventOf c nonzero)) =
      typeSymbol 79 breaksLine (sheetOf terminal) c := by
  unfold eventOf
  by_cases breaks : IsLineBreak c
  · have here : breaksLine c = true := decide_eq_true breaks
    rw [if_pos breaks, type_break here]
    rfl
  · have other : ¬ breaksLine c = true := by
      rw [breaksLine, decide_eq_true_iff]
      exact breaks
    rw [if_neg breaks]
    by_cases room : terminal.current.length < 79
    · rw [type_room other room, terminalStep, dif_pos room]
      rfl
    · rw [type_full other room, terminalStep, dif_neg room]
      rfl

theorem events_type (text : List Byte) (printable : ∀ c ∈ text, c ≠ 0) (terminal : Terminal) :
    sheetOf (run terminalStep terminal (text.pmap eventOf printable)) =
      text.foldl (typeSymbol 79 breaksLine) (sheetOf terminal) := by
  induction text generalizing terminal with
  | nil => rfl
  | cons c text ih =>
      rw [List.pmap_cons, run_cons, ih, event_types, List.foldl_cons]

theorem events_perform (text : List Byte) (printable : ∀ c ∈ text, c ≠ 0) (console : Console) :
    run consoleStep console (text.pmap eventOf printable) =
      run performCall console (text.map putOrNewline) := by
  induction text generalizing console with
  | nil => rfl
  | cons c text ih =>
      have same : consoleStep console (eventOf c (printable c List.mem_cons_self)) =
          performCall console (putOrNewline c) := by
        unfold eventOf putOrNewline
        split <;> rfl
      rw [List.pmap_cons, run_cons, List.map_cons, run_cons, same]
      exact ih _ _

def ShowsText (console : Console) (text : List Byte) : Prop :=
  ∃ terminal, Shows console terminal ∧
    sheetOf terminal = text.foldl (typeSymbol 79 breaksLine) Sheet.blank

theorem boot_shows_nothing (memory : Memory) : ShowsText (bootConsole memory) [] :=
  ⟨Terminal.empty, boot_shows memory, rfl⟩

theorem text_appended {console : Console} {before : List Byte} (shown : ShowsText console before)
    (text : List Byte) (printable : ∀ c ∈ text, c ≠ 0) :
    ShowsText (run performCall console (text.map putOrNewline)) (before ++ text) := by
  obtain ⟨terminal, here, sheet⟩ := shown
  refine ⟨run terminalStep terminal (text.pmap eventOf printable), ?_, ?_⟩
  · rw [← events_perform text printable]
    exact run_related step_shows console terminal here _
  · rw [events_type, sheet, List.foldl_append]

theorem shown_alike {console other : Console} {text : List Byte} (shown : ShowsText console text)
    (buffer : other.vgaBuffer = console.vgaBuffer) (col : other.vgaCol = console.vgaCol)
    (row : other.vgaRow = console.vgaRow)
    (cells : ∀ row col, row < vgaHeight → col < vgaWidth →
      screenByte other.memory row col = screenByte console.memory row col) :
    ShowsText other text := by
  obtain ⟨terminal, here, sheet⟩ := shown
  refine ⟨terminal, ⟨buffer.trans here.buffer, col.trans here.col, ?_, ?_⟩, sheet⟩
  · rw [row]
    exact here.row
  · intro row col rowBound colBound
    exact (cells row col rowBound colBound).trans (here.cells row col rowBound colBound)

theorem shown_layout {console : Console} {text : List Byte} (shown : ShowsText console text) :
    ShowsLines console (layout 79 breaksLine text) := by
  obtain ⟨terminal, here, sheet⟩ := shown
  have lines : terminal.lines = layout 79 breaksLine text := by
    rw [← typed_layout breaksLine (show 0 < 79 by decide) text, ← sheet]
    rfl
  have last : (layout 79 breaksLine text).getLast?.getD [] = terminal.current := by
    rw [← lines, Terminal.lines, List.getLast?_concat]
    rfl
  constructor
  · rw [screen_rendered _ _ here, ← lines]
    rfl
  · rw [shows_row here, ← lines]
    rfl
  · rw [here.col, last]

end Typing

section Calls

abbrev Request := List Byte × List Arg

/-- The arguments are there, no directive is a line break, and no character of
the text is NUL. -/
structure Printable (request : Request) : Prop where
  supplied : Matches request.1 request.2
  breaks : NoLineBreakDirective false request.1
  nonzero : ∀ text, sprintfStored request.1 request.2 = some text → ∀ c ∈ text, c ≠ 0

theorem printf_text (request : Request) (printable : Printable request) :
    ∃ text, sprintfStored request.1 request.2 = some text ∧ (∀ c ∈ text, c ≠ 0) ∧
      ∀ console, printfConsole console request.1 request.2 =
        some (run performCall console (text.map putOrNewline)) := by
  obtain ⟨kinds, requested, begins⟩ := printable.supplied
  obtain ⟨text, calls, agree⟩ := loops_agree none request.1 request.2 kinds requested begins
  have prints : printf request.1 request.2 = some calls := agree.prints
  refine ⟨text, agree.stores, printable.nonzero text agree.stores, ?_⟩
  intro console
  unfold printfConsole
  rw [prints, agree.same.mpr printable.breaks]
  rfl

theorem printf_texts (requests : List Request)
    (printable : ∀ request ∈ requests, Printable request) :
    ∃ texts, requests.mapM (fun request => sprintfStored request.1 request.2) = some texts ∧
      (∀ c ∈ texts.flatten, c ≠ 0) ∧
      ∀ console, requests.foldlM (fun console request =>
          printfConsole console request.1 request.2) console =
        some (run performCall console (texts.flatten.map putOrNewline)) := by
  induction requests with
  | nil => exact ⟨[], rfl, fun c member => absurd member List.not_mem_nil, fun _ => rfl⟩
  | cons request requests ih =>
      obtain ⟨text, stores, textNonzero, prints⟩ :=
        printf_text request (printable request List.mem_cons_self)
      obtain ⟨texts, stored, restNonzero, printed⟩ :=
        ih fun other member => printable other (List.mem_cons_of_mem request member)
      refine ⟨text :: texts, ?_, ?_, ?_⟩
      · rw [List.mapM_cons, stores, stored]
        rfl
      · intro c member
        rw [List.flatten_cons, List.mem_append] at member
        exact member.elim (textNonzero c) (restNonzero c)
      · intro console
        rw [List.foldlM_cons, prints, List.flatten_cons, List.map_append, run_append]
        exact printed _

/-- Every run of calls ends, and the screen shows the texts that `sprintf`
stores as one text, wherever one call ends and the next begins. -/
theorem printf_calls_show_text (memory : Memory) (requests : List Request)
    (printable : ∀ request ∈ requests, Printable request) :
    ∃ texts console,
      requests.mapM (fun request => sprintfStored request.1 request.2) = some texts ∧
      requests.foldlM (fun console request => printfConsole console request.1 request.2)
        (bootConsole memory) = some console ∧
      ShowsLines console (layout 79 breaksLine texts.flatten) := by
  obtain ⟨texts, stored, nonzero, printed⟩ := printf_texts requests printable
  exact ⟨texts, _, stored, printed _,
    shown_layout (text_appended (boot_shows_nothing memory) texts.flatten nonzero)⟩

def sampleRequests : List Request :=
  [(['%', '4', 'd', '!'].map charByte ++ [10], [.word 42]), (['o', 'k'].map charByte, [])]

theorem sample_requests_printable : ∀ request ∈ sampleRequests, Printable request := by
  intro request member
  simp only [sampleRequests, List.mem_cons, List.not_mem_nil, or_false] at member
  rcases member with rfl | rfl
  · refine ⟨⟨[.word], rfl, List.prefix_rfl⟩, ⟨by decide, trivial⟩, ?_⟩
    intro text stores
    have textIs : text = [32, 32, 52, 50, 33, 10] := (Option.some.inj stores).symm
    rw [textIs]
    decide +kernel
  · refine ⟨⟨[], rfl, List.prefix_rfl⟩, trivial, ?_⟩
    intro text stores
    have textIs : text = [111, 107] := (Option.some.inj stores).symm
    rw [textIs]
    decide +kernel

theorem printf_calls_show_text_sample :
    ∃ texts console,
      sampleRequests.mapM (fun request => sprintfStored request.1 request.2) = some texts ∧
      sampleRequests.foldlM (fun console request => printfConsole console request.1 request.2)
        (bootConsole fun _ => 0) = some console ∧
      ShowsLines console (layout 79 breaksLine texts.flatten) :=
  printf_calls_show_text (fun _ => 0) sampleRequests sample_requests_printable

end Calls

end LumenOS.PrintedText
