import LumenOS.KeyboardModel
import LumenOS.StepRuns

/-!
# The display under different drain schedules

The ring is taken here as a queue that never fills. A key either acts on the
screen inside the handler or leaves a character to be echoed when the queue is
drained, so the two kinds are ordered by the schedule and not by the keyboard.
They agree with one key at a time as long as each acting key finds the queue
empty.
-/

namespace LumenOS.EchoSchedule

open LumenOS.ByteMemory LumenOS.ConsoleModel LumenOS.KeyboardModel LumenOS.StepRuns

set_option autoImplicit false

structure Echo where
  keys : Keys
  queue : List Byte

inductive EchoEvent where
  | key (scancode : Byte)
  | drain

def echoChar (keys : Keys) (c : Byte) : Keys :=
  { keys with console := printfChar c keys.console }

def echoStep (state : Echo) : EchoEvent → Echo
  | .key scancode =>
      let (c, keys) := keyboardGetChar scancode state.keys
      { keys := keys, queue := if c ≠ 0 then state.queue ++ [c] else state.queue }
  | .drain =>
      match state.queue with
      | [] => state
      | c :: rest => { keys := echoChar state.keys c, queue := rest }

def processKey (keys : Keys) (scancode : Byte) : Keys :=
  let (c, keys) := keyboardGetChar scancode keys
  if c ≠ 0 then echoChar keys c else keys

def scancodes (events : List EchoEvent) : List Byte :=
  events.filterMap fun
    | .key scancode => some scancode
    | .drain => none

structure SameDisplay (left right : Console) : Prop where
  memory : left.memory = right.memory
  col : left.vgaCol = right.vgaCol
  row : left.vgaRow = right.vgaRow
  cursorLocation : left.cursorLocation = right.cursorLocation

/-- A key that acts on the screen is handled with nothing left to echo. -/
def InOrder (state : Echo) : EchoEvent → Prop
  | .key scancode => ActsOnScreen scancode → state.queue = []
  | .drain => True

def settled (state : Echo) : Keys := state.queue.foldl echoChar state.keys

def processEvent (keys : Keys) : EchoEvent → Keys
  | .key scancode => processKey keys scancode
  | .drain => keys

/-- A key that only produces a character reads the shift flag and nothing of
the console, so it gives the same before and after the queue is echoed. -/
theorem passive_key_after_echo (scancode : Byte) (queue : List Byte) (keys : Keys)
    (passive : ¬ ActsOnScreen scancode) :
    (keyboardGetChar scancode (queue.foldl echoChar keys)).1 =
        (keyboardGetChar scancode keys).1 ∧
      (keyboardGetChar scancode (queue.foldl echoChar keys)).2 =
        queue.foldl echoChar (keyboardGetChar scancode keys).2 := by
  have commutes : ∀ (keys : Keys) (c : Byte),
      (keyboardGetChar scancode (echoChar keys c)).1 = (keyboardGetChar scancode keys).1 ∧
        (keyboardGetChar scancode (echoChar keys c)).2 =
          echoChar (keyboardGetChar scancode keys).2 c := by
    intro keys c
    simp only [ActsOnScreen, List.mem_cons, List.not_mem_nil, or_false, not_or] at passive
    unfold keyboardGetChar
    simp only [passive, if_false]
    split_ifs <;> exact ⟨rfl, rfl⟩
  induction queue generalizing keys with
  | nil => exact ⟨rfl, rfl⟩
  | cons c queue ih =>
      have first := commutes keys c
      have rest := ih (echoChar keys c)
      rw [List.foldl_cons, List.foldl_cons]
      exact ⟨rest.1.trans first.1, by rw [rest.2, first.2]⟩

/-- One step seen through the settled state: a drain changes nothing, a key
in order is a key processed completely. -/
theorem settled_step (state : Echo) (event : EchoEvent) (ordered : InOrder state event) :
    settled (echoStep state event) = processEvent (settled state) event := by
  cases event with
  | drain =>
      unfold settled processEvent
      simp only [echoStep]
      split
      · rfl
      · rename_i c rest queued
        rw [queued, List.foldl_cons]
  | key scancode =>
      by_cases acts : ActsOnScreen scancode
      · have empty : state.queue = [] := ordered acts
        have silent := get_char_silent scancode state.keys acts
        unfold settled processEvent processKey
        simp [echoStep, empty, silent]
      · have same := passive_key_after_echo scancode state.queue state.keys acts
        unfold settled processEvent processKey
        simp only [echoStep, same.1, same.2]
        split_ifs with produced
        · rw [List.foldl_append]
          rfl
        · rfl

theorem process_events_scancodes (keys : Keys) (events : List EchoEvent) :
    run processEvent keys events = (scancodes events).foldl processKey keys := by
  induction events generalizing keys with
  | nil => rfl
  | cons event events ih =>
      cases event with
      | key scancode => exact ih (processKey keys scancode)
      | drain => exact ih keys

/-- A run in order that ends with an empty queue leaves exactly the state of
its keys processed one by one. -/
theorem ordered_run_settles (keys : Keys) (events : List EchoEvent)
    (ordered : EachStep echoStep InOrder { keys := keys, queue := [] } events)
    (empty : (run echoStep { keys := keys, queue := [] } events).queue = []) :
    (run echoStep { keys := keys, queue := [] } events).keys =
      (scancodes events).foldl processKey keys := by
  have square := run_simulation settled processEvent settled_step
    { keys := keys, queue := [] } events ordered
  rw [process_events_scancodes] at square
  unfold settled at square
  rwa [empty] at square

/-- Any two schedules of the same keys that keep the acting keys in order and
end drained show the same display, that of the keys processed one by one. -/
theorem display_independent_of_schedule (keys : Keys) (first second : List EchoEvent)
    (same : scancodes first = scancodes second)
    (firstOrdered : EachStep echoStep InOrder { keys := keys, queue := [] } first)
    (secondOrdered : EachStep echoStep InOrder { keys := keys, queue := [] } second)
    (firstEmpty : (run echoStep { keys := keys, queue := [] } first).queue = [])
    (secondEmpty : (run echoStep { keys := keys, queue := [] } second).queue = []) :
    SameDisplay (run echoStep { keys := keys, queue := [] } first).keys.console
        (run echoStep { keys := keys, queue := [] } second).keys.console ∧
      SameDisplay (run echoStep { keys := keys, queue := [] } first).keys.console
        ((scancodes first).foldl processKey keys).console := by
  have left := ordered_run_settles keys first firstOrdered firstEmpty
  have right := ordered_run_settles keys second secondOrdered secondEmpty
  rw [left, right, same]
  exact ⟨⟨rfl, rfl, rfl, rfl⟩, ⟨rfl, rfl, rfl, rfl⟩⟩

/-- Two letters and Enter, the letters echoed at once or together. -/
theorem display_independent_two_letters :
    SameDisplay
        (run echoStep { keys := bootKeys fun _ => 0, queue := [] }
          [.key 0x1E, .drain, .key 0x30, .drain, .key 0x1C]).keys.console
        (run echoStep { keys := bootKeys fun _ => 0, queue := [] }
          [.key 0x1E, .key 0x30, .drain, .drain, .key 0x1C]).keys.console ∧
      SameDisplay
        (run echoStep { keys := bootKeys fun _ => 0, queue := [] }
          [.key 0x1E, .drain, .key 0x30, .drain, .key 0x1C]).keys.console
        ((scancodes [.key 0x1E, .drain, .key 0x30, .drain, .key 0x1C]).foldl processKey
          (bootKeys fun _ => 0)).console := by
  have passive : ¬ ActsOnScreen 0x1E ∧ ¬ ActsOnScreen 0x30 := by decide
  apply display_independent_of_schedule
  · rfl
  · exact ⟨fun acts => absurd acts passive.1, trivial, fun acts => absurd acts passive.2, trivial,
      fun _ => rfl, trivial⟩
  · exact ⟨fun acts => absurd acts passive.1, fun acts => absurd acts passive.2, trivial, trivial,
      fun _ => rfl, trivial⟩
  · rfl
  · rfl

/-- The letter `a` echoed before or after Enter ends on different columns. -/
theorem display_depends_on_schedule :
    ¬ ∀ first second : List EchoEvent, scancodes first = scancodes second →
      (run echoStep { keys := bootKeys fun _ => 0, queue := [] } first).queue = [] →
      (run echoStep { keys := bootKeys fun _ => 0, queue := [] } second).queue = [] →
      SameDisplay (run echoStep { keys := bootKeys fun _ => 0, queue := [] } first).keys.console
        (run echoStep { keys := bootKeys fun _ => 0, queue := [] } second).keys.console := by
  intro independent
  have same := independent [.key 0x1E, .drain, .key 0x1C] [.key 0x1E, .key 0x1C, .drain]
    rfl rfl rfl
  have col := same.col
  revert col
  decide

end LumenOS.EchoSchedule
