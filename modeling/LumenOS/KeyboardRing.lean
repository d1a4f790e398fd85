import LumenOS.KeyboardModel
import LumenOS.StepRuns

/-!
# The keyboard ring over whole runs

Runs interleave `keyboard_handler` and `keyboard_getc`, each as one atomic
step. Beside the kernel the run keeps two histories: the characters the
handler had room for, and what `keyboard_getc` gave back on a non-empty ring.
The handler advances the head without storing the character, so every cell
keeps its initial zero and the two histories agree only while both are empty.
-/

namespace LumenOS.KeyboardRing

open LumenOS.ByteMemory LumenOS.KeyboardModel LumenOS.StepRuns

set_option autoImplicit false

inductive RingEvent where
  | handler (scancode : Byte)
  | getc

structure RingRun where
  kernel : Kernel
  accepted : List Byte
  returned : List Byte

def ringStep (state : RingRun) : RingEvent → RingRun
  | .handler scancode =>
      let c := (keyboardGetChar scancode state.kernel.keys).1
      { state with
        kernel := keyboardHandler scancode state.kernel
        accepted :=
          if c ≠ 0 ∧ ¬ state.kernel.ring.Full then state.accepted ++ [c]
          else state.accepted }
  | .getc =>
      let (c, kernel) := keyboardGetc state.kernel
      { state with
        kernel := kernel
        returned :=
          if state.kernel.ring.Empty then state.returned else state.returned ++ [c] }

def initialRing : KbdRing where
  kbdBuffer := fun _ => 0
  kbdHead := 0
  kbdTail := 0

def initialRun (keys : Keys) : RingRun where
  kernel := { keys := keys, ring := initialRing, portWrites := [] }
  accepted := []
  returned := []

def drain (state : RingRun) : RingRun :=
  run ringStep state (List.replicate (kbdBufferSize - 1) .getc)

/-- The ring has behaved as a queue: what came out so far is a leading part
of what went in, a zero never came out of a non-empty ring, and once the ring
is drained everything that went in has come out. -/
structure IsFifo (state : RingRun) : Prop where
  leading : state.returned <+: state.accepted
  nonzero : (0 : Byte) ∉ state.returned
  drained : (drain state).returned = (drain state).accepted

structure CellsNeverWritten (state : RingRun) : Prop where
  cells : state.kernel.ring.kbdBuffer = fun _ => 0
  accepted : (0 : Byte) ∉ state.accepted
  returned : ∀ c ∈ state.returned, c = 0

structure Quiet (state : RingRun) : Prop where
  empty : state.kernel.ring.Empty
  head : state.kernel.ring.kbdHead < kbdBufferSize
  accepted : state.accepted = []
  returned : state.returned = []

/-- The handler runs of the sequence that produce no character. -/
def NoCharacter (state : RingRun) : RingEvent → Prop
  | .handler scancode => (keyboardGetChar scancode state.kernel.keys).1 = 0
  | .getc => True

theorem handler_keeps_cells (scancode : Byte) (kernel : Kernel) :
    (keyboardHandler scancode kernel).ring.kbdBuffer = kernel.ring.kbdBuffer := by
  unfold keyboardHandler outb
  dsimp only
  split_ifs <;> rfl

theorem getc_keeps_cells (kernel : Kernel) :
    (keyboardGetc kernel).2.ring.kbdBuffer = kernel.ring.kbdBuffer := by
  unfold keyboardGetc
  split_ifs <;> rfl

theorem getc_returns_cell (kernel : Kernel) (occupied : ¬ kernel.ring.Empty) :
    (keyboardGetc kernel).1 = kernel.ring.kbdBuffer kernel.ring.kbdTail := by
  unfold keyboardGetc
  rw [if_neg (show ¬ kernel.ring.kbdHead = kernel.ring.kbdTail from occupied)]

theorem getc_on_empty (kernel : Kernel) (empty : kernel.ring.Empty) :
    keyboardGetc kernel = (0, kernel) := by
  unfold keyboardGetc
  rw [if_pos (show kernel.ring.kbdHead = kernel.ring.kbdTail from empty)]

theorem step_cells_never_written (state : RingRun) (event : RingEvent)
    (unwritten : CellsNeverWritten state) : CellsNeverWritten (ringStep state event) := by
  rcases unwritten with ⟨cells, accepted, returned⟩
  cases event with
  | handler scancode =>
      refine ⟨(handler_keeps_cells scancode state.kernel).trans cells, ?_, returned⟩
      simp only [ringStep]
      split_ifs with taken
      · simp only [List.mem_append, List.mem_singleton, not_or]
        exact ⟨accepted, fun zero => taken.1 zero.symm⟩
      · exact accepted
  | getc =>
      refine ⟨(getc_keeps_cells state.kernel).trans cells, accepted, ?_⟩
      simp only [ringStep]
      split_ifs with empty
      · exact returned
      · intro c member
        rcases List.mem_append.mp member with earlier | last
        · exact returned c earlier
        · rw [List.mem_singleton.mp last, getc_returns_cell state.kernel empty, cells]

theorem run_cells_never_written (keys : Keys) (events : List RingEvent) :
    CellsNeverWritten (run ringStep (initialRun keys) events) := by
  have start : CellsNeverWritten (initialRun keys) :=
    ⟨rfl, by simp [initialRun], by simp [initialRun]⟩
  exact run_invariant_always CellsNeverWritten step_cells_never_written (initialRun keys) start
    events

theorem quiet_not_full (state : RingRun) (quiet : Quiet state) : ¬ state.kernel.ring.Full := by
  have empty : state.kernel.ring.kbdHead = state.kernel.ring.kbdTail := quiet.empty
  have head := quiet.head
  simp only [KbdRing.Full, u8, kbdBufferSize] at head ⊢
  omega

theorem quiet_step (state : RingRun) (event : RingEvent) (quiet : Quiet state)
    (silent : NoCharacter state event) : Quiet (ringStep state event) := by
  cases event with
  | handler scancode =>
      have zero : (keyboardGetChar scancode state.kernel.keys).1 = 0 := silent
      have ring : (keyboardHandler scancode state.kernel).ring = state.kernel.ring := by
        unfold keyboardHandler outb
        simp [zero]
      refine ⟨?_, ?_, ?_, quiet.returned⟩
      · simpa only [ringStep, ring] using quiet.empty
      · simpa only [ringStep, ring] using quiet.head
      · simpa [ringStep, zero] using quiet.accepted
  | getc =>
      have unchanged : ringStep state .getc = state := by
        simp only [ringStep, getc_on_empty state.kernel quiet.empty, if_pos quiet.empty]
      rw [unchanged]
      exact quiet

theorem accepted_grows (state : RingRun) (event : RingEvent) :
    state.accepted <+: (ringStep state event).accepted := by
  cases event with
  | handler scancode =>
      simp only [ringStep]
      split_ifs
      · exact List.prefix_append _ _
      · exact List.prefix_rfl
  | getc => exact List.prefix_rfl

theorem run_accepted_grows (state : RingRun) (events : List RingEvent) :
    state.accepted <+: (run ringStep state events).accepted :=
  run_invariant_always (fun later => state.accepted <+: later.accepted)
    (fun later event leading => leading.trans (accepted_grows later event))
    state List.prefix_rfl events

/-- A run that starts quiet and ends with nothing accepted never produced a
character: the first one would have found the ring empty and been accepted. -/
theorem nothing_accepted_no_character (state : RingRun) (quiet : Quiet state)
    (events : List RingEvent) (nothing : (run ringStep state events).accepted = []) :
    EachStep ringStep NoCharacter state events := by
  induction events generalizing state with
  | nil => trivial
  | cons event events ih =>
      have silent : NoCharacter state event := by
        cases event with
        | getc => trivial
        | handler scancode =>
            by_contra produced
            have nonzero : (keyboardGetChar scancode state.kernel.keys).1 ≠ 0 := produced
            have grown := run_accepted_grows (ringStep state (.handler scancode)) events
            rw [run_cons] at nothing
            rw [nothing, List.prefix_nil] at grown
            simp [ringStep, nonzero, quiet_not_full state quiet] at grown
      exact ⟨silent, ih _ (quiet_step state event quiet silent) nothing⟩

theorem initial_quiet (keys : Keys) : Quiet (initialRun keys) :=
  ⟨rfl, Nat.zero_lt_succ 127, rfl, rfl⟩

theorem silent_run_quiet (keys : Keys) (events : List RingEvent)
    (silent : EachStep ringStep NoCharacter (initialRun keys) events) :
    Quiet (run ringStep (initialRun keys) events) :=
  run_invariant quiet_step (initialRun keys) (initial_quiet keys) events silent

theorem getc_run_silent (state : RingRun) (count : Nat) :
    EachStep ringStep NoCharacter state (List.replicate count .getc) := by
  induction count generalizing state with
  | zero => trivial
  | succ count ih => exact ⟨trivial, ih _⟩

/-- The ring is a queue over a run exactly when no handler run of it produces
a character: the first character queued already comes out as a zero. -/
theorem ring_fifo_iff_no_character (keys : Keys) (events : List RingEvent) :
    IsFifo (run ringStep (initialRun keys) events) ↔
      EachStep ringStep NoCharacter (initialRun keys) events := by
  constructor
  · intro fifo
    have written := run_cells_never_written keys
      (events ++ List.replicate (kbdBufferSize - 1) .getc)
    rw [run_append] at written
    have grown := run_accepted_grows (run ringStep (initialRun keys) events)
      (List.replicate (kbdBufferSize - 1) .getc)
    have empty : (drain (run ringStep (initialRun keys) events)).accepted = [] := by
      apply List.eq_nil_iff_forall_not_mem.mpr
      intro c member
      have zero : c = 0 := written.returned c (fifo.drained ▸ member)
      exact written.accepted (zero ▸ member)
    have nothing : (run ringStep (initialRun keys) events).accepted = [] := by
      have leading : _ <+: (drain (run ringStep (initialRun keys) events)).accepted := grown
      rw [empty] at leading
      exact List.prefix_nil.mp leading
    exact nothing_accepted_no_character (initialRun keys) (initial_quiet keys) events nothing
  · intro silent
    have quiet := silent_run_quiet keys events silent
    have drained : Quiet (drain (run ringStep (initialRun keys) events)) :=
      run_invariant quiet_step _ quiet _ (getc_run_silent _ _)
    refine ⟨?_, ?_, ?_⟩
    · rw [quiet.returned]
      exact List.nil_prefix
    · rw [quiet.returned]
      exact List.not_mem_nil
    · rw [drained.returned, drained.accepted]

/-- The key `a` and one read: the zero of the untouched cell comes out. -/
theorem ring_returns_zero_for_a :
    ¬ IsFifo (run ringStep (initialRun (bootKeys fun _ => 0)) [.handler 0x1E, .getc]) := by
  intro fifo
  have zero : (0 : Byte) ∈
      (run ringStep (initialRun (bootKeys fun _ => 0)) [.handler 0x1E, .getc]).returned := by
    decide
  exact fifo.nonzero zero

end LumenOS.KeyboardRing
