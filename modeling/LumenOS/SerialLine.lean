import LumenOS.UartDevice
import LumenOS.TerminatedText
import LumenOS.StepRuns

/-!
# The serial line under interrupts

`serial_write` of `serial.c` as the small steps of its two nested loops, over
the chip at a base port. Between any two steps the chip may send a character,
and an interrupt may run `serial_write_char` to its end, as Backspace does: the
handler waits until the chip is empty and adds one character. It can do so
between the last poll of the interrupted loop and its write.
-/

namespace LumenOS.SerialLine

open LumenOS.ByteMemory LumenOS.UartDevice LumenOS.TerminatedText LumenOS.StepRuns

set_option autoImplicit false

def com1 : Nat := 0x3F8

def outb (base port : Nat) (value : Byte) (uart : Uart) : Uart :=
  if base ≤ port ∧ port < base + 8 then uart.write (port - base) value else uart

/-- Of the registers read only the line status matters here. -/
def inb (base port : Nat) (others : Byte) (uart : Uart) : Byte :=
  if port = base + 5 then uart.lineStatus others else others

def serialInit (base port : Nat) (uart : Uart) : Uart :=
  let uart := outb base (u16 (port + 1)) 0x00 uart
  let uart := outb base (u16 (port + 3)) 0x80 uart
  let uart := outb base (u16 (port + 0)) 0x03 uart
  let uart := outb base (u16 (port + 1)) 0x00 uart
  let uart := outb base (u16 (port + 3)) 0x03 uart
  let uart := outb base (u16 (port + 2)) 0xC7 uart
  outb base (u16 (port + 4)) 0x0B uart

def serialIsTransmitReady (base port : Nat) (others : Byte) (uart : Uart) : Byte :=
  inb base (u16 (port + 5)) others uart &&& 0x20

/-- Where `serial_write` stands: the characters of the current one still to be
given to `serial_write_char`, and whether the wait for the first is over. -/
structure Writer where
  str : Nat
  pending : List Byte
  ready : Bool
  finished : Bool

/-- The calls of `serial_write_char` for one character of the string. -/
def charCalls (c : Byte) : List Byte := if c = 10 then [13, c] else [c]

inductive Source where
  | loop
  | interrupt
  deriving DecidableEq

/-- The chip, the interrupted loop, and every character written to the data
port with who wrote it, oldest first. -/
structure Line where
  uart : Uart
  writer : Writer
  issued : List (Source × Byte)

inductive LineEvent where
  | shift
  | step (others : Byte)
  | interrupt (c : Byte)

section Steps

variable (base : Nat) (memory : Memory)

/-- One test of the loop over the string, one poll, or one write. -/
def writerStep (others : Byte) (line : Line) : Line :=
  match line.writer.pending with
  | [] =>
      if line.writer.finished then line
      else
        let c := readByte memory line.writer.str
        if c = 0 then { line with writer := { line.writer with finished := true } }
        else
          { line with
            writer := { line.writer with str := line.writer.str + 1, pending := charCalls c } }
  | c :: rest =>
      if line.writer.ready then
        { uart := outb base base c line.uart
          writer := { line.writer with pending := rest, ready := false }
          issued := line.issued ++ [(.loop, c)] }
      else
        { line with
          writer := { line.writer with
            ready := serialIsTransmitReady base base others line.uart != 0 } }

/-- `serial_write_char` in a handler: the wait ends with the chip empty. -/
def serialWriteChar (c : Byte) (uart : Uart) : Uart := outb base base c uart.drain

def lineStep (line : Line) : LineEvent → Line
  | .shift => { line with uart := line.uart.shift }
  | .step others => writerStep base memory others line
  | .interrupt c =>
      { line with
        uart := serialWriteChar base c line.uart
        issued := line.issued ++ [(.interrupt, c)] }

end Steps

def startLine (base str : Nat) (uart : Uart) : Line where
  uart := serialInit base base uart
  writer := ⟨str, [], false, false⟩
  issued := []

def lineText (text : List Byte) : List Byte := text.flatMap charCalls

def issuedBy (source : Source) (issued : List (Source × Byte)) : List Byte :=
  (issued.filter fun call => call.1 = source).map Prod.snd

def LineEvent.asked : LineEvent → Option Byte
  | .interrupt c => some c
  | _ => none

/-- The registers as `serial_init` leaves them: 38400 baud, eight data bits, no
parity, one stop bit, the store on and the divisor latch off. -/
structure Configured (uart : Uart) : Prop where
  fcr : uart.fcr = 0xC7
  lcr : uart.lcr = 0x03
  low : uart.divisorLow = 0x03
  high : uart.divisorHigh = 0x00

theorem line_setup (uart : Uart) :
    (((((uart.write 3 0x80).write 0 0x03).write 1 0x00).write 3 0x03).write 2 0xC7).write 4 0x0B =
      { uart with
        fcr := 0xC7
        lcr := 0x03
        mcr := 0x0B
        divisorLow := 0x03
        divisorHigh := 0x00
        fifo := [] } := by
  have on : (0x80 : Byte).toNat.testBit 7 = true := by decide
  have set : uart.write 3 0x80 = { uart with lcr := 0x80 } := rfl
  rw [set, Uart.write_low_latched, Uart.write_high_latched]
  · rfl
  · exact on
  · exact on

section Registers

variable {base : Nat} (fits : base + 8 ≤ 2 ^ 16)

include fits

theorem outb_register (register : Nat) (small : register < 8) (value : Byte) (uart : Uart) :
    outb base (u16 (base + register)) value uart = uart.write register value := by
  have whole : u16 (base + register) = base + register := by
    unfold u16
    omega
  rw [outb, whole, if_pos (by omega), Nat.add_sub_cancel_left]

theorem serial_init_writes (uart : Uart) :
    serialInit base base uart =
      (((((((uart.write 1 0x00).write 3 0x80).write 0 0x03).write 1 0x00).write 3 0x03).write 2
        0xC7).write 4 0x0B) := by
  unfold serialInit
  simp only [outb_register fits _ (show 0 < 8 by decide),
    outb_register fits _ (show 1 < 8 by decide), outb_register fits _ (show 2 < 8 by decide),
    outb_register fits _ (show 3 < 8 by decide), outb_register fits _ (show 4 < 8 by decide)]

/-- Whether the divisor latch was on or off before. -/
theorem serial_init_registers (uart : Uart) :
    ∃ ier, serialInit base base uart =
      { uart with
        ier := ier
        fcr := 0xC7
        lcr := 0x03
        mcr := 0x0B
        divisorLow := 0x03
        divisorHigh := 0x00
        fifo := [] } := by
  rw [serial_init_writes fits, line_setup]
  cases latch : uart.divisorLatch with
  | false => exact ⟨0x00, by simp [Uart.write, latch]⟩
  | true => exact ⟨uart.ier, by simp [Uart.write, latch]⟩

end Registers

/-- A frame sent under the settings of `serial_init`. -/
def sent (byte : Byte) : Frame := ⟨byte, 3, 0x03⟩

/-- The chip is set up, has lost nothing, and what it put on the line and still
holds is exactly what it was given, in that order. -/
structure Carries (start : Uart) (given : List Byte) (uart : Uart) : Prop where
  configured : Configured uart
  lost : uart.lost = start.lost
  carried : ∃ frames, uart.wire = start.wire ++ frames ∧
    frames ++ uart.fifo.map sent = given.map sent

section Chip

variable {start uart : Uart} {given : List Byte}

theorem configured_frame (configured : Configured uart) : uart.frame = sent := by
  funext byte
  unfold Uart.frame Uart.divisor sent
  rw [configured.low, configured.high, configured.lcr]
  rfl

theorem configured_data (configured : Configured uart) (base : Nat) (c : Byte)
    (room : uart.fifo.length < 16) :
    outb base base c uart = { uart with fifo := uart.fifo ++ [c] } := by
  have latch : uart.divisorLatch = false := by
    unfold Uart.divisorLatch
    rw [configured.lcr]
    rfl
  have capacity : uart.capacity = 16 := by
    unfold Uart.capacity
    rw [configured.fcr]
    rfl
  rw [outb, if_pos (by omega), Nat.sub_self]
  simp [Uart.write, latch, Uart.enqueue, capacity, room]

theorem carries_init {base : Nat} (fits : base + 8 ≤ 2 ^ 16) (uart : Uart) :
    Carries uart [] (serialInit base base uart) := by
  obtain ⟨ier, registers⟩ := serial_init_registers fits uart
  rw [registers]
  exact ⟨⟨rfl, rfl, rfl, rfl⟩, rfl, [], (List.append_nil _).symm, rfl⟩

variable (carries : Carries start given uart)

include carries

theorem carries_shift : Carries start given uart.shift := by
  obtain ⟨configured, lost, frames, wire, carried⟩ := carries
  cases waiting : uart.fifo with
  | nil =>
      have same : uart.shift = uart := by
        unfold Uart.shift
        rw [waiting]
      rw [same]
      exact ⟨configured, lost, frames, wire, carried⟩
  | cons byte rest =>
      have moved : uart.shift =
          { uart with fifo := rest, wire := uart.wire ++ [uart.frame byte] } := by
        unfold Uart.shift
        rw [waiting]
      rw [moved, configured_frame configured, wire, List.append_assoc]
      refine ⟨⟨configured.fcr, configured.lcr, configured.low, configured.high⟩, lost,
        frames ++ [sent byte], rfl, ?_⟩
      rw [← carried, waiting, List.append_assoc]
      rfl

theorem carries_drain : Carries start given uart.drain := by
  obtain ⟨configured, lost, frames, wire, carried⟩ := carries
  refine ⟨⟨configured.fcr, configured.lcr, configured.low, configured.high⟩, lost,
    frames ++ uart.fifo.map sent, ?_, ?_⟩
  · unfold Uart.drain
    rw [configured_frame configured, wire, List.append_assoc]
  · rw [← carried]
    exact List.append_nil _

theorem carries_write (base : Nat) (c : Byte) (room : uart.fifo.length < 16) :
    Carries start (given ++ [c]) (outb base base c uart) := by
  obtain ⟨configured, lost, frames, wire, carried⟩ := carries
  rw [configured_data configured base c room]
  refine ⟨⟨configured.fcr, configured.lcr, configured.low, configured.high⟩, lost, frames, wire, ?_⟩
  rw [List.map_append, List.map_append, ← carried, List.append_assoc]

theorem write_occupies (base : Nat) (c : Byte) (room : uart.fifo.length < 16) :
    (outb base base c uart).fifo.length = uart.fifo.length + 1 := by
  rw [configured_data carries.configured base c room, List.length_append, List.length_singleton]

end Chip

theorem issued_append (source : Source) (issued : List (Source × Byte)) (call : Source × Byte) :
    issuedBy source (issued ++ [call]) =
      issuedBy source issued ++ if call.1 = source then [call.2] else [] := by
  unfold issuedBy
  rw [List.filter_append, List.map_append]
  by_cases same : call.1 = source
  · simp [same]
  · simp [same]

/-- The store never holds more than two characters, and at most one while the
loop is past its wait: only interrupts come in between. -/
structure Roomy (line : Line) : Prop where
  room : line.uart.fifo.length ≤ 2
  waited : line.writer.ready = true → line.uart.fifo.length ≤ 1

/-- What the loop has written, what it is writing and what is left of the
string make up the whole text. -/
structure Advances (memory : Memory) (text rest : List Byte) (line : Line) : Prop where
  whole : issuedBy .loop line.issued ++ (line.writer.pending ++ lineText rest) = lineText text
  left : Terminated (readByte memory) line.writer.str rest
  finished : line.writer.finished = true → line.writer.pending = [] ∧ rest = []
  waiting : line.writer.ready = true → line.writer.pending ≠ []

def work (rest : List Byte) (writer : Writer) : Nat :=
  if writer.finished then 0
  else 1 + rest.length + 2 * (lineText rest).length + 2 * writer.pending.length -
    if writer.ready then 1 else 0

structure Sound (memory : Memory) (start : Uart) (text rest : List Byte) (line : Line) :
    Prop where
  carries : Carries start (line.issued.map Prod.snd) line.uart
  roomy : Roomy line
  advances : Advances memory text rest line

section Runs

variable {base : Nat} {memory : Memory} {start : Uart} {text rest : List Byte}

theorem shift_shorter (uart : Uart) : uart.shift.fifo.length ≤ uart.fifo.length - 1 := by
  unfold Uart.shift
  split
  · rename_i waiting
    rw [waiting]
    exact Nat.le_refl _
  · rename_i byte rest waiting
    rw [waiting]
    exact Nat.le_refl _

theorem sound_shift {line : Line} (sound : Sound memory start text rest line) :
    Sound memory start text rest (lineStep base memory line .shift) := by
  obtain ⟨carries, ⟨room, waited⟩, advances⟩ := sound
  have shorter := shift_shorter line.uart
  constructor
  · exact carries_shift carries
  · constructor
    · exact Nat.le_trans shorter (by omega)
    · intro ready
      have one := waited ready
      exact Nat.le_trans shorter (by omega)
  · exact ⟨advances.whole, advances.left, advances.finished, advances.waiting⟩

theorem sound_interrupt {line : Line} (sound : Sound memory start text rest line) (c : Byte) :
    Sound memory start text rest (lineStep base memory line (LineEvent.interrupt c)) := by
  obtain ⟨carries, -, advances⟩ := sound
  have drained := carries_drain carries
  have empty : line.uart.drain.fifo.length < 16 := by
    change 0 < 16
    decide
  have occupied : (outb base base c line.uart.drain).fifo.length = 1 :=
    write_occupies drained base c empty
  constructor
  · change Carries start ((line.issued ++ [(Source.interrupt, c)]).map Prod.snd) _
    rw [List.map_append]
    exact carries_write drained base c empty
  · constructor
    · exact Nat.le_trans (Nat.le_of_eq occupied) (by decide)
    · intro _
      exact Nat.le_of_eq occupied
  · refine ⟨?_, advances.left, advances.finished, advances.waiting⟩
    have other : Source.interrupt ≠ Source.loop := by decide
    change issuedBy .loop (line.issued ++ [(Source.interrupt, c)]) ++ _ = _
    rw [issued_append, if_neg other, List.append_nil]
    exact advances.whole

section Cases

variable (base memory) (others : Byte) {line : Line}

theorem step_done (idle : line.writer.pending = []) (done : line.writer.finished = true) :
    writerStep base memory others line = line := by
  unfold writerStep
  rw [idle]
  simp [done]

theorem step_end (idle : line.writer.pending = []) (busy : line.writer.finished = false)
    (zero : readByte memory line.writer.str = 0) :
    writerStep base memory others line =
      { line with writer := { line.writer with finished := true } } := by
  unfold writerStep
  rw [idle]
  simp [busy, zero]

theorem step_char (idle : line.writer.pending = []) (busy : line.writer.finished = false)
    (nonzero : readByte memory line.writer.str ≠ 0) :
    writerStep base memory others line =
      { line with
        writer := { line.writer with
          str := line.writer.str + 1
          pending := charCalls (readByte memory line.writer.str) } } := by
  unfold writerStep
  rw [idle]
  simp [busy, nonzero]

theorem step_write {c : Byte} {later : List Byte} (waits : line.writer.pending = c :: later)
    (ready : line.writer.ready = true) :
    writerStep base memory others line =
      { uart := outb base base c line.uart
        writer := { line.writer with pending := later, ready := false }
        issued := line.issued ++ [(.loop, c)] } := by
  unfold writerStep
  rw [waits]
  exact if_pos ready

theorem step_poll (fits : base + 8 ≤ 2 ^ 16) {c : Byte} {later : List Byte}
    (waits : line.writer.pending = c :: later) (unready : line.writer.ready = false) :
    writerStep base memory others line =
      { line with writer := { line.writer with ready := line.uart.fifo.isEmpty } } := by
  have port : u16 (base + 5) = base + 5 := by
    unfold u16
    omega
  have polled : (serialIsTransmitReady base base others line.uart != 0) =
      line.uart.fifo.isEmpty := by
    unfold serialIsTransmitReady inb
    rw [port, if_pos rfl, Bool.eq_iff_iff, bne_iff_ne, Uart.ready_iff, List.isEmpty_iff]
  unfold writerStep
  rw [waits]
  dsimp only
  rw [unready, polled]
  rfl

end Cases

section Moves

variable {line : Line} (others : Byte)

theorem unready_idle (sound : Sound memory start text rest line)
    (idle : line.writer.pending = []) : line.writer.ready = false := by
  cases ready : line.writer.ready with
  | false => rfl
  | true => exact absurd idle (sound.advances.waiting ready)

theorem busy_waits {c : Byte} {later : List Byte} (sound : Sound memory start text rest line)
    (waits : line.writer.pending = c :: later) : line.writer.finished = false := by
  cases done : line.writer.finished with
  | false => rfl
  | true => exact absurd (sound.advances.finished done).1 (by simp [waits])

theorem sound_fetch (sound : Sound memory start text rest line)
    (idle : line.writer.pending = []) (busy : line.writer.finished = false) :
    ∃ later, Sound memory start text later (writerStep base memory others line) ∧
      work later (writerStep base memory others line).writer ≤ work rest line.writer - 1 := by
  have unready := unready_idle sound idle
  obtain ⟨carries, ⟨room, waited⟩, ⟨whole, left, finished, waiting⟩⟩ := sound
  have before : work rest line.writer = 1 + rest.length + 2 * (lineText rest).length := by
    simp [work, busy, idle, unready]
  cases rest with
  | nil =>
      rw [step_end base memory others idle busy left]
      exact ⟨[], ⟨carries, ⟨room, waited⟩, ⟨whole, left, fun _ => ⟨idle, rfl⟩, waiting⟩⟩,
        Nat.zero_le _⟩
  | cons c rest =>
      obtain ⟨here, nonzero, later⟩ := left
      have split : lineText (c :: rest) = charCalls c ++ lineText rest := rfl
      rw [step_char base memory others idle busy (by rwa [here]), here]
      have after : work rest { line.writer with
          str := line.writer.str + 1, pending := charCalls c } =
          1 + rest.length + 2 * (lineText rest).length + 2 * (charCalls c).length := by
        simp [work, busy, unready]
      rw [split, List.length_cons, List.length_append] at before
      refine ⟨rest, ⟨carries, ⟨room, waited⟩, ⟨?_, later, ?_, ?_⟩⟩, ?_⟩
      · rw [idle, List.nil_append, split] at whole
        exact whole
      · intro done
        exact absurd done (by simp [busy])
      · intro ready
        exact absurd ready (by simp [unready])
      · exact Nat.le_trans (Nat.le_of_eq after) (by omega)

theorem sound_write {c : Byte} {later : List Byte} (sound : Sound memory start text rest line)
    (waits : line.writer.pending = c :: later) (ready : line.writer.ready = true) :
    Sound memory start text rest (writerStep base memory others line) ∧
      work rest (writerStep base memory others line).writer ≤ work rest line.writer - 1 := by
  have busy := busy_waits sound waits
  obtain ⟨carries, ⟨room, waited⟩, ⟨whole, left, finished, waiting⟩⟩ := sound
  have space : line.uart.fifo.length < 16 := Nat.lt_of_le_of_lt room (by decide)
  have occupied := write_occupies carries base c space
  have one := waited ready
  have before : work rest line.writer =
      2 + rest.length + 2 * (lineText rest).length + 2 * later.length := by
    simp only [work, busy, waits, ready, List.length_cons]
    simp
    omega
  have after : work rest { line.writer with pending := later, ready := false } =
      1 + rest.length + 2 * (lineText rest).length + 2 * later.length := by
    simp [work, busy]
  rw [step_write base memory others waits ready]
  refine ⟨⟨?_, ⟨?_, ?_⟩, ⟨?_, left, ?_, ?_⟩⟩, ?_⟩
  · rw [List.map_append]
    exact carries_write carries base c space
  · exact Nat.le_trans (Nat.le_of_eq occupied) (by omega)
  · intro unready
    exact absurd unready (by simp)
  · rw [waits] at whole
    rw [issued_append, if_pos rfl, List.append_assoc]
    exact whole
  · intro done
    exact absurd done (by simp [busy])
  · intro unready
    exact absurd unready (by simp)
  · exact Nat.le_trans (Nat.le_of_eq after) (by omega)

theorem sound_poll (fits : base + 8 ≤ 2 ^ 16) {c : Byte} {later : List Byte}
    (sound : Sound memory start text rest line) (waits : line.writer.pending = c :: later)
    (unready : line.writer.ready = false) :
    Sound memory start text rest (writerStep base memory others line) ∧
      work rest (writerStep base memory others line).writer =
        work rest line.writer - if line.uart.fifo.isEmpty then 1 else 0 := by
  have busy := busy_waits sound waits
  obtain ⟨carries, ⟨room, waited⟩, ⟨whole, left, finished, waiting⟩⟩ := sound
  rw [step_poll base memory others fits waits unready]
  refine ⟨⟨carries, ⟨room, ?_⟩, ⟨whole, left, finished, ?_⟩⟩, ?_⟩
  · intro polled
    rw [List.isEmpty_iff.mp polled]
    exact Nat.zero_le _
  · intro _
    simp [waits]
  · simp [work, busy, unready]

end Moves

/-- One step of the loop keeps the invariant, and with an empty store it makes progress. -/
theorem sound_step (fits : base + 8 ≤ 2 ^ 16) {line : Line} (others : Byte)
    (sound : Sound memory start text rest line) :
    ∃ later, Sound memory start text later (writerStep base memory others line) ∧
      work later (writerStep base memory others line).writer ≤ work rest line.writer ∧
      (line.uart.fifo = [] →
        work later (writerStep base memory others line).writer ≤ work rest line.writer - 1) := by
  cases waits : line.writer.pending with
  | nil =>
      cases busy : line.writer.finished with
      | true =>
          rw [step_done base memory others waits busy]
          have spent : work rest line.writer = 0 := if_pos busy
          exact ⟨rest, sound, Nat.le_refl _, fun _ => by omega⟩
      | false =>
          obtain ⟨later, kept, less⟩ := sound_fetch others sound waits busy
          exact ⟨later, kept, by omega, fun _ => less⟩
  | cons c later =>
      cases ready : line.writer.ready with
      | true =>
          obtain ⟨kept, less⟩ := sound_write others sound waits ready
          exact ⟨rest, kept, by omega, fun _ => less⟩
      | false =>
          obtain ⟨kept, left⟩ := sound_poll others fits sound waits ready
          refine ⟨rest, kept, by omega, fun empty => ?_⟩
          rw [empty] at left
          exact Nat.le_of_eq left

theorem sound_event (fits : base + 8 ≤ 2 ^ 16) {line : Line} (event : LineEvent)
    (sound : Sound memory start text rest line) :
    ∃ later, Sound memory start text later (lineStep base memory line event) ∧
      work later (lineStep base memory line event).writer ≤ work rest line.writer := by
  cases event with
  | shift => exact ⟨rest, sound_shift sound, Nat.le_refl _⟩
  | interrupt c => exact ⟨rest, sound_interrupt sound c, Nat.le_refl _⟩
  | step others =>
      obtain ⟨later, kept, less, -⟩ := sound_step fits others sound
      exact ⟨later, kept, less⟩

theorem sound_run (fits : base + 8 ≤ 2 ^ 16) {line : Line} (events : List LineEvent)
    (sound : Sound memory start text rest line) :
    ∃ later, Sound memory start text later (run (lineStep base memory) line events) ∧
      work later (run (lineStep base memory) line events).writer ≤ work rest line.writer := by
  induction events generalizing line rest with
  | nil => exact ⟨rest, sound, Nat.le_refl _⟩
  | cons event events ih =>
      obtain ⟨middle, kept, less⟩ := sound_event fits event sound
      obtain ⟨later, ends, fewer⟩ := ih kept
      exact ⟨later, ends, Nat.le_trans fewer less⟩

def quietRound (others : Byte) : List LineEvent := [.shift, .shift, .step others]

theorem sound_round (fits : base + 8 ≤ 2 ^ 16) {line : Line} (others : Byte)
    (sound : Sound memory start text rest line) :
    ∃ later, Sound memory start text later (run (lineStep base memory) line (quietRound others)) ∧
      work later (run (lineStep base memory) line (quietRound others)).writer ≤
        work rest line.writer - 1 := by
  have first := shift_shorter line.uart
  have second := shift_shorter line.uart.shift
  have room := sound.roomy.room
  have twice : Sound memory start text rest
      (lineStep base memory (lineStep base memory line .shift) .shift) :=
    sound_shift (sound_shift sound)
  obtain ⟨later, kept, -, progress⟩ := sound_step fits others twice
  refine ⟨later, kept, progress ?_⟩
  apply List.eq_nil_of_length_eq_zero
  change line.uart.shift.shift.fifo.length = 0
  omega

/-- Any events, then a quiet round, as often as the list is long. -/
def fairEvents (schedule : List (List LineEvent × Byte)) : List LineEvent :=
  schedule.flatMap fun turn => turn.1 ++ quietRound turn.2

theorem sound_schedule (fits : base + 8 ≤ 2 ^ 16) {line : Line}
    (schedule : List (List LineEvent × Byte)) (sound : Sound memory start text rest line) :
    ∃ later, Sound memory start text later
        (run (lineStep base memory) line (fairEvents schedule)) ∧
      work later (run (lineStep base memory) line (fairEvents schedule)).writer ≤
        work rest line.writer - schedule.length := by
  induction schedule generalizing line rest with
  | nil => exact ⟨rest, sound, Nat.le_refl _⟩
  | cons turn schedule ih =>
      obtain ⟨middle, kept, less⟩ := sound_run fits turn.1 sound
      obtain ⟨next, quiet, fewer⟩ := sound_round fits turn.2 kept
      obtain ⟨later, ends, fewest⟩ := ih quiet
      have split : fairEvents (turn :: schedule) =
          turn.1 ++ quietRound turn.2 ++ fairEvents schedule := rfl
      rw [split, run_append, run_append, List.length_cons]
      exact ⟨later, ends, by omega⟩

theorem no_work_finished {line : Line} (sound : Sound memory start text rest line)
    (done : work rest line.writer = 0) : line.writer.finished = true := by
  cases busy : line.writer.finished with
  | true => rfl
  | false =>
      rw [work, busy, if_neg (by simp)] at done
      cases ready : line.writer.ready with
      | false =>
          rw [ready, if_neg (by simp)] at done
          omega
      | true =>
          have waiting := List.length_pos_of_ne_nil (sound.advances.waiting ready)
          rw [ready, if_pos rfl] at done
          omega

theorem interrupts_step (line : Line) (event : LineEvent) :
    issuedBy .interrupt (lineStep base memory line event).issued =
      issuedBy .interrupt line.issued ++ event.asked.toList := by
  cases event with
  | shift => exact (List.append_nil _).symm
  | interrupt c => exact issued_append _ _ _
  | step others =>
      change issuedBy .interrupt (writerStep base memory others line).issued = _
      unfold writerStep
      split
      · dsimp only
        split_ifs <;> exact (List.append_nil _).symm
      · split_ifs
        · exact issued_append _ _ _
        · exact (List.append_nil _).symm

theorem interrupts_issued (line : Line) (events : List LineEvent) :
    issuedBy .interrupt (run (lineStep base memory) line events).issued =
      issuedBy .interrupt line.issued ++ events.filterMap LineEvent.asked := by
  induction events generalizing line with
  | nil => exact (List.append_nil _).symm
  | cons event events ih =>
      rw [run_cons, ih, interrupts_step, List.append_assoc]
      cases event <;> rfl

theorem start_sound (fits : base + 8 ≤ 2 ^ 16) (uart : Uart) (str : Nat)
    (spelled : Terminated (readByte memory) str text) :
    Sound memory uart text text (startLine base str uart) := by
  obtain ⟨ier, registers⟩ := serial_init_registers fits uart
  have empty : (serialInit base base uart).fifo = [] := by rw [registers]
  constructor
  · exact carries_init fits uart
  · constructor
    · change (serialInit base base uart).fifo.length ≤ 2
      rw [empty]
      exact Nat.zero_le _
    · intro ready
      exact absurd ready (by simp [startLine])
  · refine ⟨rfl, spelled, ?_, ?_⟩
    · intro done
      exact absurd done (by simp [startLine])
    · intro ready
      exact absurd ready (by simp [startLine])

end Runs

theorem line_text_length (text : List Byte) : (lineText text).length ≤ 2 * text.length := by
  induction text with
  | nil => exact Nat.le_refl _
  | cons c text ih =>
      have one : (charCalls c).length ≤ 2 := by
        unfold charCalls
        split_ifs <;> simp
      change (charCalls c ++ lineText text).length ≤ _
      rw [List.length_append, List.length_cons]
      omega

/-- A receiver that drops carriage returns gets a text without them back. -/
theorem line_text_recovered (text : List Byte) (plain : (13 : Byte) ∉ text) :
    (lineText text).filter (· ≠ 13) = text := by
  induction text with
  | nil => rfl
  | cons c text ih =>
      rw [List.mem_cons, not_or] at plain
      change (charCalls c ++ lineText text).filter (· ≠ 13) = c :: text
      rw [List.filter_append, ih plain.2]
      unfold charCalls
      split_ifs with lineFeed
      · simp [lineFeed]
      · simp [Ne.symm plain.1]

/-- What leaves through the line in any run, with any interrupts: nothing is
lost, every frame has the settings of `serial_init`, the chip sends what was
written in the order it was written, the loop's share is the text with a
carriage return before each line feed as far as the loop has come, and the
interrupts' share is theirs in order. -/
structure Faithful (start : Uart) (text : List Byte) (events : List LineEvent) (line : Line) :
    Prop where
  lost : line.uart.lost = start.lost
  carried : ∃ frames, line.uart.wire = start.wire ++ frames ∧
    frames ++ line.uart.fifo.map sent = line.issued.map fun call => sent call.2
  loop : issuedBy .loop line.issued <+: lineText text
  finished : line.writer.finished = true → issuedBy .loop line.issued = lineText text
  interrupts : issuedBy .interrupt line.issued = events.filterMap LineEvent.asked

/-- Every run is faithful, and a run finishes the string once it has given the
loop enough steps with an empty store, whatever happens in between. To finish is
to hand the last byte to the chip, which may still hold it. -/
structure Transmits (base : Nat) (memory : Memory) (start : Uart) (str : Nat) (text : List Byte) :
    Prop where
  faithful : ∀ events,
    Faithful start text events (run (lineStep base memory) (startLine base str start) events)
  completes : ∀ schedule : List (List LineEvent × Byte), 5 * text.length + 1 ≤ schedule.length →
    (run (lineStep base memory) (startLine base str start) (fairEvents schedule)).writer.finished =
      true
  recovered : (13 : Byte) ∉ text → (lineText text).filter (· ≠ 13) = text

theorem sound_faithful {memory : Memory} {start : Uart} {text rest : List Byte}
    {events : List LineEvent} {line : Line} (sound : Sound memory start text rest line)
    (asked : issuedBy .interrupt line.issued = events.filterMap LineEvent.asked) :
    Faithful start text events line := by
  obtain ⟨⟨-, lost, frames, wire, carried⟩, -, ⟨whole, -, finished, -⟩⟩ := sound
  constructor
  · exact lost
  · refine ⟨frames, wire, ?_⟩
    rw [carried, List.map_map]
    rfl
  · exact ⟨_, whole⟩
  · intro done
    obtain ⟨idle, ended⟩ := finished done
    rw [idle, ended] at whole
    simpa [lineText] using whole
  · exact asked

/-- From any state of the chip. -/
theorem serial_write_transmits (base : Nat) (fits : base + 8 ≤ 2 ^ 16) (memory : Memory)
    (start : Uart) (str : Nat) (text : List Byte)
    (spelled : Terminated (readByte memory) str text) : Transmits base memory start str text := by
  have begins := start_sound fits start str spelled
  constructor
  · intro events
    obtain ⟨rest, sound, -⟩ := sound_run fits events begins
    apply sound_faithful sound
    exact interrupts_issued (startLine base str start) events
  · intro schedule enough
    obtain ⟨rest, sound, less⟩ := sound_schedule fits schedule begins
    apply no_work_finished sound
    have short := line_text_length text
    have initial : work text (startLine base str start).writer =
        1 + text.length + 2 * (lineText text).length := rfl
    omega
  · exact line_text_recovered text

def resetUart : Uart where
  ier := 0
  fcr := 0
  lcr := 0x80
  mcr := 0
  divisorLow := 12
  divisorHigh := 0
  fifo := []
  wire := []
  lost := []

def greeting : Memory := fun address =>
  if address = 0x206000 then 104 else if address = 0x206001 then 105
  else if address = 0x206002 then 10 else 0

theorem serial_write_transmits_greeting :
    Transmits com1 greeting resetUart 0x206000 [104, 105, 10] :=
  serial_write_transmits com1 (by decide) greeting resetUart 0x206000 [104, 105, 10]
    ⟨rfl, by decide, rfl, by decide, rfl, by decide, rfl⟩

end LumenOS.SerialLine
