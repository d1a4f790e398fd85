import LumenOS.KeyboardModel
import LumenOS.StepRuns

/-!
# Two shift keys and one flag

The keyboard driver keeps a single flag for both shift keys: the last shift
scancode decides it. Which keys are held is decided key by key, by the last
scancode of each.
-/

namespace LumenOS.ShiftTracking

open LumenOS.ByteMemory LumenOS.KeyboardModel LumenOS.StepRuns

set_option autoImplicit false

section Keys

inductive ShiftKey where
  | left
  | right

namespace ShiftKey

def press : ShiftKey → Byte
  | left => 0x2A
  | right => 0x36

def release : ShiftKey → Byte
  | left => 0xAA
  | right => 0xB6

def other : ShiftKey → ShiftKey
  | left => right
  | right => left

def sends (key : ShiftKey) (scancode : Byte) : Bool :=
  scancode = key.press || scancode = key.release

end ShiftKey

def shiftCode (scancode : Byte) : Bool :=
  ShiftKey.left.sends scancode || ShiftKey.right.sends scancode

/-- A key is held when the last scancode it sent is that of a press. -/
def Held (key : ShiftKey) (scancodes : List Byte) : Prop :=
  lastWhere key.sends scancodes = some key.press

instance (key : ShiftKey) (scancodes : List Byte) : Decidable (Held key scancodes) :=
  inferInstanceAs (Decidable (_ = _))

def ShiftHeld (scancodes : List Byte) : Prop :=
  Held .left scancodes ∨ Held .right scancodes

instance (scancodes : List Byte) : Decidable (ShiftHeld scancodes) :=
  inferInstanceAs (Decidable (_ ∨ _))

variable {key : ShiftKey} {scancodes : List Byte}

theorem held_shift_held (held : Held key scancodes) : ShiftHeld scancodes := by
  cases key with
  | left => exact Or.inl held
  | right => exact Or.inr held

theorem sends_shift_code (key : ShiftKey) (scancode : Byte) (sent : key.sends scancode = true) :
    shiftCode scancode = true := by
  unfold shiftCode
  cases key <;> simp [sent]

theorem shift_code_iff (scancode : Byte) :
    shiftCode scancode = true ↔
      ∃ key : ShiftKey, scancode = key.press ∨ scancode = key.release := by
  constructor
  · intro code
    simp only [shiftCode, ShiftKey.sends, Bool.or_eq_true, decide_eq_true_eq] at code
    rcases code with sent | sent
    · exact ⟨.left, sent⟩
    · exact ⟨.right, sent⟩
  · rintro ⟨key, sent⟩
    apply sends_shift_code key
    simpa [ShiftKey.sends] using sent

theorem press_held (last : lastWhere shiftCode scancodes = some key.press) :
    Held key scancodes := by
  apply last_where_narrow (sends_shift_code key) scancodes key.press last
  simp [ShiftKey.sends]

theorem release_not_held (last : lastWhere shiftCode scancodes = some key.release) :
    ¬ Held key scancodes := by
  have sent : key.sends key.release = true := by simp [ShiftKey.sends]
  have latest := last_where_narrow (sends_shift_code key) scancodes key.release last sent
  unfold Held
  rw [latest]
  cases key <;> decide

theorem untouched_not_held (absent : lastWhere shiftCode scancodes = none) :
    ¬ ShiftHeld scancodes := by
  have none_sent : ∀ key : ShiftKey, ¬ Held key scancodes := by
    intro key
    unfold Held
    rw [last_where_none (sends_shift_code key) scancodes absent]
    intro impossible
    cases impossible
  rintro (held | held)
  · exact none_sent .left held
  · exact none_sent .right held

end Keys

section Flag

theorem flag_pressed (keys : Keys) (key : ShiftKey) :
    (keyStep keys key.press).keyboardShift = 255 := by
  cases key <;> rfl

theorem flag_released (keys : Keys) (key : ShiftKey) :
    (keyStep keys key.release).keyboardShift = 0 := by
  cases key <;> rfl

theorem flag_kept (keys : Keys) (scancode : Byte) (passive : ¬ shiftCode scancode = true) :
    (keyStep keys scancode).keyboardShift = keys.keyboardShift := by
  have neither : ∀ key : ShiftKey, scancode ≠ key.press ∧ scancode ≠ key.release := by
    intro key
    constructor
    · exact fun sent => passive ((shift_code_iff scancode).mpr ⟨key, Or.inl sent⟩)
    · exact fun sent => passive ((shift_code_iff scancode).mpr ⟨key, Or.inr sent⟩)
  have leftPress : scancode ≠ 0x2A := (neither .left).1
  have leftRelease : scancode ≠ 0xAA := (neither .left).2
  have rightPress : scancode ≠ 0x36 := (neither .right).1
  have rightRelease : scancode ≠ 0xB6 := (neither .right).2
  unfold keyStep keyboardGetChar
  simp only [leftPress, leftRelease, rightPress, rightRelease, if_false]
  split_ifs <;> rfl

variable (keys : Keys) (scancodes : List Byte)

/-- What the one flag remembers: whether the last shift scancode was a press. -/
theorem flag_iff_last_press (initial : keys.keyboardShift = 0) :
    (run keyStep keys scancodes).keyboardShift ≠ 0 ↔
      ∃ key : ShiftKey, lastWhere shiftCode scancodes = some key.press := by
  induction scancodes using List.reverseRecOn with
  | nil => simp [initial, lastWhere]
  | append_singleton scancodes scancode ih =>
      rw [run_append, run_cons, run_nil, last_where_concat]
      by_cases code : shiftCode scancode = true
      · rw [if_pos code]
        obtain ⟨key, rfl | rfl⟩ := (shift_code_iff scancode).mp code
        · rw [flag_pressed]
          exact ⟨fun _ => ⟨key, rfl⟩, fun _ => by decide⟩
        · rw [flag_released]
          constructor
          · intro nonzero
            exact absurd rfl nonzero
          · rintro ⟨pressed, same⟩
            have equal := Option.some.inj same
            cases key <;> cases pressed <;> exact absurd equal (by decide)
      · rw [flag_kept _ _ code, if_neg code]
        exact ih

theorem flag_held (initial : keys.keyboardShift = 0)
    (set : (run keyStep keys scancodes).keyboardShift ≠ 0) : ShiftHeld scancodes := by
  obtain ⟨key, last⟩ := (flag_iff_last_press keys scancodes initial).mp set
  exact held_shift_held (press_held last)

/-- The last shift scancode, where it is a release, leaves no shift key held. -/
def ReleasedLast (scancodes : List Byte) : Prop :=
  ∀ key : ShiftKey, lastWhere shiftCode scancodes = some key.release →
    ¬ Held key.other scancodes

theorem released_not_held (released : ReleasedLast scancodes) (key : ShiftKey)
    (last : lastWhere shiftCode scancodes = some key.release) : ¬ ShiftHeld scancodes := by
  have here := release_not_held last
  have there := released key last
  rintro (held | held)
  · cases key with
    | left => exact here held
    | right => exact there held
  · cases key with
    | left => exact there held
    | right => exact here held

theorem flag_exact_iff (initial : keys.keyboardShift = 0) :
    ((run keyStep keys scancodes).keyboardShift ≠ 0 ↔ ShiftHeld scancodes) ↔
      ReleasedLast scancodes := by
  constructor
  · intro exact_flag key last held
    have set := exact_flag.mpr (held_shift_held held)
    obtain ⟨pressed, press⟩ := (flag_iff_last_press keys scancodes initial).mp set
    have equal := Option.some.inj (last.symm.trans press)
    cases key <;> cases pressed <;> exact absurd equal (by decide)
  · intro released
    refine ⟨flag_held keys scancodes initial, ?_⟩
    intro held
    rw [flag_iff_last_press keys scancodes initial]
    cases last : lastWhere shiftCode scancodes with
    | none => exact absurd held (untouched_not_held last)
    | some scancode =>
        have code : shiftCode scancode = true :=
          (List.mem_filter.mp (List.mem_of_getLast? last)).2
        obtain ⟨key, rfl | rfl⟩ := (shift_code_iff scancode).mp code
        · exact ⟨key, rfl⟩
        · exact absurd held (released_not_held scancodes released key last)

end Flag

section Letters

def handled : List Byte := [0x2A, 0x36, 0xAA, 0xB6, 0x1C, 0x0E, 0x48, 0x4B, 0x4D, 0x50]

theorem letter_not_handled (scancode : Byte) (letter : isLetter (km1 scancode) = true) :
    scancode ∉ handled := by
  intro control
  have none_letter : ∀ code ∈ handled, isLetter (km1 code) = false := by
    decide +kernel
  rw [none_letter scancode control] at letter
  cases letter

theorem letter_char (keys : Keys) (scancode : Byte) (letter : isLetter (km1 scancode) = true) :
    (keyboardGetChar scancode keys).1 =
      if keys.keyboardShift ≠ 0 then km1 scancode - 0x20 else km1 scancode := by
  have ordinary := letter_not_handled scancode letter
  simp only [handled, List.mem_cons, List.not_mem_nil, or_false, not_or] at ordinary
  unfold keyboardGetChar applyShift
  simp only [ordinary, if_false]
  by_cases clear : keys.keyboardShift = 0
  · rw [if_pos clear, if_neg (not_not_intro clear)]
  · rw [if_neg clear, if_pos letter, if_pos clear]

/-- The driver knows whether a shift key is held, and treats letters so. -/
structure Tracks (keys : Keys) (scancodes : List Byte) : Prop where
  flag : keys.keyboardShift ≠ 0 ↔ ShiftHeld scancodes
  letters : ∀ scancode, isLetter (km1 scancode) = true →
    (keyboardGetChar scancode keys).1 =
      if ShiftHeld scancodes then km1 scancode - 0x20 else km1 scancode

/-- The flag tells whether a shift key is held exactly when the last release of
one key does not come with the other still down. -/
theorem shift_tracked_iff (keys : Keys) (initial : keys.keyboardShift = 0)
    (scancodes : List Byte) :
    Tracks (run keyStep keys scancodes) scancodes ↔ ReleasedLast scancodes := by
  constructor
  · intro tracks
    exact (flag_exact_iff keys scancodes initial).mp tracks.flag
  · intro released
    have flag := (flag_exact_iff keys scancodes initial).mpr released
    refine ⟨flag, ?_⟩
    intro scancode letter
    rw [letter_char _ _ letter]
    exact if_congr flag rfl rfl

/-- Left shift down, `a`, left shift up. -/
theorem shift_tracked_once :
    Tracks (run keyStep (bootKeys fun _ => 0) [0x2A, 0x1E, 0xAA]) [0x2A, 0x1E, 0xAA] := by
  apply (shift_tracked_iff (bootKeys fun _ => 0) rfl [0x2A, 0x1E, 0xAA]).mpr
  intro key last
  cases key <;> revert last <;> decide

/-- Both keys down and the left one up again: the flag is clear with the right
one held. -/
theorem second_shift_lost :
    ¬ ∀ (keys : Keys) (scancodes : List Byte), keys.keyboardShift = 0 →
      Tracks (run keyStep keys scancodes) scancodes := by
  intro always
  have tracks := always (bootKeys fun _ => 0) [0x2A, 0x36, 0xAA] rfl
  have held : ShiftHeld [0x2A, 0x36, 0xAA] := by decide
  exact tracks.flag.mpr held rfl

end Letters

end LumenOS.ShiftTracking
