import LumenOS.HeapModel

/-!
# The heap through every history of its clients

The memory represents an arena of cells: the list in its headers visits the
cells in address order and a flag word tells the free ones. `malloc` takes the
first cell that fits or adds one, `free` clears one owner, a client's write
stays off all headers. What holds of the arena then holds of the bytes.
-/

namespace LumenOS.HeapHistory

open LumenOS.ByteMemory LumenOS.FirstFit LumenOS.HeapModel

set_option autoImplicit false

/-- The memory holds the arena as a linked list that starts at `pointer`. -/
def Represents (memory : Memory) : Nat → Nat → List Cell → Prop
  | pointer, _, [] => pointer = 0
  | pointer, start, cell :: cells => pointer = start ∧ blockSize memory start = cell.size ∧
      blockFree memory start = (if cell.owner = none then 1 else 0) ∧
      Represents memory (blockNext memory start) (start + cell.size) cells

def SameHeaders (before after : Memory) (start : Nat) (cells : List Cell) : Prop :=
  ∀ place cell, (place, cell) ∈ placed start cells → ∀ i, i < headerSize →
    readByte after (place + i) = readByte before (place + i)

theorem header_words (before after : Memory) (block : Nat)
    (same : ∀ i, i < headerSize → readByte after (block + i) = readByte before (block + i)) :
    blockSize after block = blockSize before block ∧
      blockFree after block = blockFree before block ∧
      blockNext after block = blockNext before block := by
  refine ⟨load32_congr fun i bound => same i (by unfold headerSize; omega),
    load32_congr fun i bound => ?_, load32_congr fun i bound => ?_⟩
  · have shifted := same (4 + i) (by unfold headerSize; omega)
    rwa [← Nat.add_assoc] at shifted
  · have shifted := same (8 + i) (by unfold headerSize; omega)
    rwa [← Nat.add_assoc] at shifted

/-- A write off the first header leaves it in front of what the list behind it
becomes. -/
theorem represents_behind {before after : Memory} {pointer start : Nat} {first : Cell}
    {cells changed : List Cell}
    (same : ∀ i, i < headerSize → readByte after (start + i) = readByte before (start + i))
    (held : Represents before pointer start (first :: cells))
    (behind : Represents after (blockNext before start) (start + first.size) changed) :
    Represents after pointer start (first :: changed) := by
  obtain ⟨at_start, size, flag, _⟩ := held
  obtain ⟨sameSize, sameFree, sameNext⟩ := header_words before after start same
  refine ⟨at_start, sameSize.trans size, sameFree.trans flag, ?_⟩
  rwa [sameNext]

theorem represents_same_headers {before after : Memory} {pointer start : Nat} {cells : List Cell}
    (same : SameHeaders before after start cells) (held : Represents before pointer start cells) :
    Represents after pointer start cells := by
  induction cells generalizing pointer start with
  | nil => exact held
  | cons cell cells ih =>
      apply represents_behind (same start cell List.mem_cons_self) held
      apply ih
      · intro place other member
        exact same place other (List.mem_cons_of_mem (start, cell) member)
      · exact held.2.2.2

theorem store32_off (memory : Memory) {address value other : Nat}
    (fits : address + 4 ≤ 2 ^ 32) (otherFits : other < 2 ^ 32)
    (off : other < address ∨ address + 4 ≤ other) :
    readByte (store32 memory address value) other = readByte memory other := by
  apply store32_outside
  intro i bound
  unfold u32
  omega

theorem load32_off (memory : Memory) (address value other : Nat)
    (fits : address + 4 ≤ 2 ^ 32) (otherFits : other + 4 ≤ 2 ^ 32)
    (off : other + 4 ≤ address ∨ address + 4 ≤ other) :
    load32 (store32 memory address value) other = load32 memory other :=
  load_store_disjoint memory address other value (disjoint_of_separate otherFits fits off)

theorem store32_same_headers (memory : Memory) {address value start : Nat} {cells : List Cell}
    (fits : address + 4 ≤ 2 ^ 32) (inMemory : start + total cells ≤ 2 ^ 32)
    (sound : ∀ cell ∈ cells, headerSize ≤ cell.size)
    (off : ∀ place cell, (place, cell) ∈ placed start cells →
      place + headerSize ≤ address ∨ address + 4 ≤ place) :
    SameHeaders memory (store32 memory address value) start cells := by
  intro place cell member i bound
  have bounds := placed_bounds member
  have large := sound cell (placed_cell_mem member)
  have apart := off place cell member
  apply store32_off memory fits
  · omega
  · omega

/-- The flag word of the first header decides its owner. -/
theorem represents_first {memory : Memory} {pointer start : Nat} {first : Cell}
    {cells : List Cell} (owner : Option Nat) (inMemory : start + total (first :: cells) ≤ 2 ^ 32)
    (sound : ∀ other ∈ first :: cells, headerSize ≤ other.size)
    (held : Represents memory pointer start (first :: cells)) :
    Represents (store32 memory (start + 4) (if owner = none then 1 else 0)) pointer start
      ({ first with owner := owner } :: cells) := by
  obtain ⟨at_start, size, flag, rest⟩ := held
  have large := sound first List.mem_cons_self
  rw [total_cons] at inMemory
  unfold headerSize at large
  refine ⟨at_start, ?_, ?_, ?_⟩
  · have kept := load32_off memory (start + 4) (if owner = none then 1 else 0) start
      (by omega) (by omega) (by omega)
    exact kept.trans size
  · have stored := load_store_same memory (start + 4) (if owner = none then 1 else 0)
    unfold blockFree
    rw [stored]
    cases owner <;> rfl
  · have kept := load32_off memory (start + 4) (if owner = none then 1 else 0) (start + 8)
      (by omega) (by omega) (by omega)
    have next : blockNext (store32 memory (start + 4) (if owner = none then 1 else 0)) start =
        blockNext memory start := kept
    rw [next]
    apply represents_same_headers _ rest
    apply store32_same_headers
    · omega
    · omega
    · intro other member
      exact sound other (List.mem_cons_of_mem first member)
    · intro other otherCell later
      have bounds := placed_bounds later
      omega

theorem represents_assign {memory : Memory} {pointer start place : Nat} {cells : List Cell}
    {cell : Cell} (owner : Option Nat) (member : (place, cell) ∈ placed start cells)
    (inMemory : start + total cells ≤ 2 ^ 32) (sound : ∀ other ∈ cells, headerSize ≤ other.size)
    (held : Represents memory pointer start cells) :
    Represents (store32 memory (place + 4) (if owner = none then 1 else 0)) pointer start
      (assign place owner start cells) := by
  induction cells generalizing pointer start with
  | nil => cases member
  | cons first cells ih =>
      unfold assign
      by_cases here : start = place
      · subst here
        rw [if_pos rfl]
        exact represents_first owner inMemory sound held
      · have later : (place, cell) ∈ placed (start + first.size) cells := by
          rcases List.mem_cons.mp member with equal | later
          · exact absurd (Prod.mk.inj equal).1.symm here
          · exact later
        have bounds := placed_bounds later
        have restSound := fun other otherMember =>
          sound other (List.mem_cons_of_mem first otherMember)
        have cellLarge := restSound cell (placed_cell_mem later)
        have large := sound first List.mem_cons_self
        rw [total_cons] at inMemory
        unfold headerSize at cellLarge large
        rw [if_neg here]
        apply represents_behind _ held (ih later (by omega) restSound held.2.2.2)
        intro i bound
        unfold headerSize at bound
        exact store32_off memory (by omega) (by omega) (by omega)

def lastHeader (prev : Nat) : Nat → List Cell → Nat
  | _, [] => prev
  | start, cell :: cells => lastHeader start (start + cell.size) cells

theorem walk_fit {memory : Memory} {pointer start : Nat} {cells : List Cell} (size fuel prev : Nat)
    (positive : 0 < start) (enough : cells.length < fuel)
    (held : Represents memory pointer start cells) :
    match fit size start cells with
    | some place => ∃ before, walk memory size fuel pointer prev = some (place, before)
    | none => walk memory size fuel pointer prev = some (0, lastHeader prev start cells) := by
  induction cells generalizing pointer start fuel prev with
  | nil =>
      cases fuel with
      | zero => omega
      | succ fuel =>
          have null : pointer = 0 := held
          unfold walk
          rw [if_pos null]
          rfl
  | cons cell cells ih =>
      obtain ⟨at_start, blockSizeIs, flag, rest⟩ := held
      subst at_start
      cases fuel with
      | zero => omega
      | succ fuel =>
          rw [List.length_cons] at enough
          have flagged : blockFree memory pointer ≠ 0 ↔ cell.owner = none := by
            rw [flag]
            cases cell.owner <;> simp
          have later := ih fuel pointer (by omega) (by omega) rest
          have notNull : pointer ≠ 0 := Nat.ne_of_gt positive
          by_cases fits : cell.owner = none ∧ size ≤ cell.size
          · have taken : blockFree memory pointer ≠ 0 ∧ blockSize memory pointer ≥ size := by
              rw [blockSizeIs]
              exact ⟨flagged.mpr fits.1, fits.2⟩
            have found : fit size pointer (cell :: cells) = some pointer := by
              unfold fit
              rw [if_pos fits]
            rw [found]
            refine ⟨prev, ?_⟩
            unfold walk
            rw [if_neg notNull, if_pos taken]
          · have passed : ¬ (blockFree memory pointer ≠ 0 ∧ blockSize memory pointer ≥ size) := by
              rw [blockSizeIs]
              intro taken
              exact fits ⟨flagged.mp taken.1, taken.2⟩
            have moves : walk memory size (fuel + 1) pointer prev =
                walk memory size fuel (blockNext memory pointer) pointer := by
              rw [walk, if_neg notNull, if_neg passed]
            have further : fit size pointer (cell :: cells) =
                fit size (pointer + cell.size) cells := by
              rw [fit, if_neg fits]
            rw [further, moves]
            exact later

theorem last_header_placed (prev start : Nat) (cell : Cell) (cells : List Cell) :
    ∃ last, (lastHeader prev start (cell :: cells), last) ∈ placed start (cell :: cells) ∧
      lastHeader prev start (cell :: cells) + last.size = start + total (cell :: cells) := by
  induction cells generalizing prev start cell with
  | nil => exact ⟨cell, List.mem_cons_self, rfl⟩
  | cons second cells ih =>
      obtain ⟨last, member, ends⟩ := ih start (start + cell.size) second
      refine ⟨last, List.mem_cons_of_mem (start, cell) member, ?_⟩
      rw [total_cons, ← Nat.add_assoc]
      exact ends

theorem represents_pair {memory : Memory} {pointer start : Nat} {first : Cell} (added : Cell)
    (inMemory : start + first.size + headerSize ≤ 2 ^ 32) (large : headerSize ≤ first.size)
    (held : Represents memory pointer start [first])
    (written : Represents memory (start + first.size) (start + first.size) [added]) :
    Represents (store32 memory (start + 8) (start + first.size)) pointer start [first, added] := by
  obtain ⟨at_start, size, flag, _⟩ := held
  unfold headerSize at inMemory large
  refine ⟨at_start, ?_, ?_, ?_⟩
  · have kept := load32_off memory (start + 8) (start + first.size) start
      (by omega) (by omega) (by omega)
    exact kept.trans size
  · have kept := load32_off memory (start + 8) (start + first.size) (start + 4)
      (by omega) (by omega) (by omega)
    exact kept.trans flag
  · have stored := load_store_same memory (start + 8) (start + first.size)
    have small : u32 (start + first.size) = start + first.size := by
      unfold u32
      omega
    unfold blockNext
    rw [stored, small]
    refine represents_same_headers ?_ written
    intro place cell member i bound
    obtain ⟨rfl, rfl⟩ := Prod.mk.inj (List.mem_singleton.mp member)
    unfold headerSize at bound
    exact store32_off memory (by omega) (by omega) (by omega)

theorem represents_link {memory : Memory} {pointer start : Nat} {first : Cell}
    {cells : List Cell} (prev : Nat) (added : Cell)
    (inMemory : start + total (first :: cells) + headerSize ≤ 2 ^ 32)
    (sound : ∀ other ∈ first :: cells, headerSize ≤ other.size)
    (held : Represents memory pointer start (first :: cells))
    (written : Represents memory (start + total (first :: cells))
      (start + total (first :: cells)) [added]) :
    Represents (store32 memory (lastHeader prev start (first :: cells) + 8)
      (start + total (first :: cells))) pointer start (first :: cells ++ [added]) := by
  induction cells generalizing pointer start first prev with
  | nil =>
      simp only [total_cons, total_nil, Nat.add_zero] at inMemory written ⊢
      exact represents_pair added inMemory (sound first List.mem_cons_self) held written
  | cons second cells ih =>
      have large := sound first List.mem_cons_self
      unfold headerSize at large
      have ends : start + total (first :: second :: cells) =
          start + first.size + total (second :: cells) := by
        rw [total_cons, Nat.add_assoc]
      rw [ends] at inMemory written ⊢
      have linked := ih start inMemory
        (fun other member => sound other (List.mem_cons_of_mem first member)) held.2.2.2 written
      obtain ⟨last, member, lastEnds⟩ :=
        last_header_placed start (start + first.size) second cells
      have bounds := placed_bounds member
      have lastLarge := sound last (List.mem_cons_of_mem first (placed_cell_mem member))
      unfold headerSize at lastLarge inMemory
      apply represents_behind _ held linked
      intro i bound
      unfold headerSize at bound
      exact store32_off memory (by omega) (by omega) (by omega)

theorem align4_value (size : Nat) (small : size ≤ heapSize) :
    align4 size % 4 = 0 ∧ size ≤ align4 size ∧ align4 size ≤ size + 3 := by
  have bound : size ≤ 65536 := small
  unfold align4 u32
  rw [Nat.shiftLeft_eq, Nat.shiftRight_eq_div_pow]
  by_cases zero : size = 0
  · -- 0 - 1 wraps to the last word, and adding four wraps back to zero
    subst zero
    decide
  · have low : (size + (2 ^ 32 - 1)) % 2 ^ 32 = size - 1 := by omega
    rw [low]
    omega

theorem block_size_value (size : Nat) (small : size ≤ heapSize) :
    u32 (align4 size + headerSize) = align4 size + headerSize := by
  have value := align4_value size small
  have bound : size ≤ 65536 := small
  unfold u32 headerSize
  omega

theorem length_le_total (cells : List Cell) (sound : ∀ cell ∈ cells, headerSize ≤ cell.size) :
    headerSize * cells.length ≤ total cells := by
  induction cells with
  | nil => exact Nat.le_refl 0
  | cons cell cells ih =>
      have large := sound cell List.mem_cons_self
      have rest := ih fun other member => sound other (List.mem_cons_of_mem cell member)
      rw [List.length_cons, total_cons, Nat.mul_succ]
      omega

/-- Every header the walk can meet, and the null pointer behind them. -/
def enoughFuel : Nat := 5462

/-- The heap holds an arena whose payloads in use are those of the clients. -/
structure Arena (base : Nat) (client : Client) (cells : List Cell) : Prop where
  held : Represents client.heap.memory client.heap.freeList base cells
  sound : ∀ cell ∈ cells, Sound headerSize cell
  aligned : ∀ cell ∈ cells, cell.size % 4 = 0
  used : client.heap.heapUsed = total cells
  bounded : total cells ≤ heapSize
  live : client.live.Perm (owned headerSize base cells)

theorem Arena.large {base : Nat} {client : Client} {cells : List Cell}
    (arena : Arena base client cells) : ∀ cell ∈ cells, headerSize ≤ cell.size :=
  fun cell member => (arena.sound cell member).1

theorem Arena.positive {base : Nat} {client : Client} {cells : List Cell}
    (arena : Arena base client cells) : ∀ cell ∈ cells, 0 < cell.size := by
  intro cell member
  have large := arena.large cell member
  unfold headerSize at large
  omega

theorem Arena.short {base : Nat} {client : Client} {cells : List Cell}
    (arena : Arena base client cells) : cells.length < enoughFuel := by
  have lengths := length_le_total cells arena.large
  have bounded : total cells ≤ 65536 := arena.bounded
  unfold headerSize at lengths
  unfold enoughFuel
  omega

theorem Arena.assign_aligned {base : Nat} {client : Client} {cells : List Cell}
    (arena : Arena base client cells) (place : Nat) (owner : Option Nat) :
    ∀ other ∈ assign place owner base cells, other.size % 4 = 0 := by
  intro other otherMember
  rcases assign_cells otherMember with kept | ⟨old, oldMember, equal⟩
  · exact arena.aligned other kept
  · rw [equal]
    exact arena.aligned old (placed_cell_mem oldMember)

theorem Arena.extend {base : Nat} {client : Client} {cells : List Cell}
    (arena : Arena base client cells) {heap : Heap} {size request : Nat} (aligned : size % 4 = 0)
    (large : headerSize + request ≤ size)
    (held : Represents heap.memory heap.freeList base (cells ++ [⟨size, some request⟩]))
    (used : heap.heapUsed = client.heap.heapUsed + size) (room : heap.heapUsed ≤ heapSize) :
    Arena base ⟨heap, (base + total cells + headerSize, request) :: client.live⟩
      (cells ++ [⟨size, some request⟩]) := by
  have sizes : total (cells ++ [⟨size, some request⟩]) = heap.heapUsed := by
    rw [total_append, total_cons, total_nil, used, arena.used, Nat.add_zero]
  constructor
  · exact held
  · intro cell member
    rcases List.mem_append.mp member with old | new
    · exact arena.sound cell old
    · rw [List.mem_singleton.mp new]
      refine ⟨Nat.le_trans (Nat.le_add_right headerSize request) large, ?_⟩
      intro value owner
      rw [← Option.some.inj owner]
      exact large
  · intro cell member
    rcases List.mem_append.mp member with old | new
    · exact arena.aligned cell old
    · rw [List.mem_singleton.mp new]
      exact aligned
  · exact sizes.symm
  · rw [sizes]
    exact room
  · rw [owned_append]
    exact (arena.live.cons _).trans (List.perm_append_singleton _ _).symm

section Heap

variable {base : Nat} (positive : 0 < base) (fits : base + heapSize < 2 ^ 32)

include fits in
theorem arena_take {client : Client} {cells : List Cell} (arena : Arena base client cells)
    {place size : Nat} {cell : Cell} (member : (place, cell) ∈ placed base cells)
    (isFree : cell.owner = none) (large : headerSize + size ≤ cell.size) (serial : List String) :
    Arena base
      { heap := { client.heap with
          memory := store32 client.heap.memory (place + 4) 0
          serial := serial }
        live := (place + headerSize, size) :: client.live }
      (assign place (some size) base cells) where
  held := by
    have bounded := arena.bounded
    exact represents_assign (some size) member (by omega) arena.large arena.held
  sound := by
    intro other otherMember
    rcases assign_cells otherMember with kept | ⟨old, oldMember, equal⟩
    · exact arena.sound other kept
    · have oldSound := arena.sound old (placed_cell_mem oldMember)
      rw [equal]
      refine ⟨oldSound.1, ?_⟩
      intro request owner
      rcases placed_apart member oldMember with same | before | after
      · obtain ⟨_, rfl⟩ := Prod.mk.inj same
        rw [← Option.some.inj owner]
        exact large
      · have more := arena.positive cell (placed_cell_mem member)
        change place + cell.size ≤ place at before
        omega
      · have more := arena.positive old (placed_cell_mem oldMember)
        change place + old.size ≤ place at after
        omega
  aligned := arena.assign_aligned place (some size)
  used := by
    rw [assign_total]
    exact arena.used
  bounded := by
    rw [assign_total]
    exact arena.bounded
  live := by
    have taken := owned_take headerSize place size base cells cell member isFree
      arena.positive
    exact (arena.live.cons _).trans taken.symm

include fits in
/-- What `free` does with a pointer in use: it sets the flag of its header. -/
theorem free_call {client : Client} {cells : List Cell} (arena : Arena base client cells)
    {ptr size : Nat} (held : (ptr, size) ∈ client.live) :
    ∃ place cell, (place, cell) ∈ placed base cells ∧ ptr = place + headerSize ∧
      free ptr client.heap =
        { client.heap with memory := store32 client.heap.memory (place + 4) 1 } := by
  obtain ⟨place, cell, member, _, equal⟩ := mem_owned.mp (arena.live.mem_iff.mp held)
  have bounds := placed_bounds member
  have bounded := arena.bounded
  have large := arena.large cell (placed_cell_mem member)
  have address : u32 (ptr + (2 ^ 32 - headerSize)) = place := by
    rw [equal]
    unfold u32
    unfold headerSize at large ⊢
    omega
  refine ⟨place, cell, member, equal, ?_⟩
  unfold free
  rw [if_neg (by rw [equal]; unfold headerSize; omega)]
  simp only [address]

include fits in
theorem arena_release {client : Client} {cells : List Cell} (arena : Arena base client cells)
    {ptr size : Nat} (held : (ptr, size) ∈ client.live) :
    Arena base
      { heap := free ptr client.heap
        live := client.live.filter fun entry => entry.1 ≠ ptr }
      (assign (ptr - headerSize) none base cells) := by
  obtain ⟨place, cell, member, equal, called⟩ := free_call fits arena held
  have bounded := arena.bounded
  rw [called]
  subst equal
  rw [Nat.add_sub_cancel]
  exact {
    held := represents_assign none member (by omega) arena.large arena.held
    sound := by
      intro other otherMember
      rcases assign_cells otherMember with kept | ⟨old, oldMember, same⟩
      · exact arena.sound other kept
      · rw [same]
        refine ⟨arena.large old (placed_cell_mem oldMember), ?_⟩
        intro request impossible
        cases impossible
    aligned := arena.assign_aligned place none
    used := by
      rw [assign_total]
      exact arena.used
    bounded := by
      rw [assign_total]
      exact bounded
    live := by
      rw [owned_release place base cells arena.positive]
      exact arena.live.filter _ }

theorem header_written (memory : Memory) {curr : Nat} (size request : Nat)
    (inMemory : curr + headerSize ≤ 2 ^ 32) (small : size < 2 ^ 32) :
    Represents (writeHeader memory curr size) curr curr [⟨size, some request⟩] := by
  unfold headerSize at inMemory
  refine ⟨rfl, ?_, ?_, ?_⟩
  · have third := load32_off (store32 (store32 memory curr size) (curr + 4) 0) (curr + 8) 0
      curr (by omega) (by omega) (by omega)
    have second := load32_off (store32 memory curr size) (curr + 4) 0
      curr (by omega) (by omega) (by omega)
    have stored := load_store_same memory curr size
    have whole : u32 size = size := Nat.mod_eq_of_lt small
    exact third.trans (second.trans (stored.trans whole))
  · have third := load32_off (store32 (store32 memory curr size) (curr + 4) 0) (curr + 8) 0
      (curr + 4) (by omega) (by omega) (by omega)
    exact third.trans (load_store_same (store32 memory curr size) (curr + 4) 0)
  · exact load_store_same (store32 (store32 memory curr size) (curr + 4) 0) (curr + 8) 0

theorem write_header_off (memory : Memory) {curr size other : Nat}
    (inMemory : curr + headerSize ≤ 2 ^ 32) (otherFits : other < 2 ^ 32)
    (off : other < curr ∨ curr + headerSize ≤ other) :
    readByte (writeHeader memory curr size) other = readByte memory other := by
  unfold headerSize at inMemory off
  unfold writeHeader
  rw [store32_off _ (by omega) otherFits (by omega), store32_off _ (by omega) otherFits (by omega),
    store32_off _ (by omega) otherFits (by omega)]

theorem write_header_same_headers (memory : Memory) {start curr : Nat} (size : Nat)
    {cells : List Cell}
    (ends : start + total cells ≤ curr) (inMemory : curr + headerSize ≤ 2 ^ 32)
    (sound : ∀ cell ∈ cells, headerSize ≤ cell.size) :
    SameHeaders memory (writeHeader memory curr size) start cells := by
  intro place cell member i bound
  have bounds := placed_bounds member
  have large := sound cell (placed_cell_mem member)
  apply write_header_off memory inMemory
  · omega
  · omega

include fits in
/-- The bump pointer does not wrap while there is room. -/
theorem append_numbers {client : Client} {cells : List Cell} (arena : Arena base client cells)
    {size : Nat} (room : client.heap.heapUsed + size ≤ heapSize) :
    u32 (client.heap.heapUsed + size) = client.heap.heapUsed + size ∧
      u32 (base + client.heap.heapUsed) = base + total cells := by
  have used := arena.used
  have heapBound : client.heap.heapUsed + size ≤ 65536 := room
  have fitsBound : base + 65536 < 2 ^ 32 := fits
  unfold u32
  omega

include positive fits in
theorem arena_append {client : Client} {cells : List Cell} (arena : Arena base client cells)
    (size request : Nat) (aligned : size % 4 = 0) (large : headerSize + request ≤ size)
    (room : client.heap.heapUsed + size ≤ heapSize) :
    (append base size (lastHeader 0 base cells) client.heap).1 = base + total cells + headerSize ∧
      Arena base
        { heap := (append base size (lastHeader 0 base cells) client.heap).2
          live := (base + total cells + headerSize, request) :: client.live }
        (cells ++ [⟨size, some request⟩]) := by
  obtain ⟨sum, curr⟩ := append_numbers fits arena room
  have used := arena.used
  have heapBound : client.heap.heapUsed + size ≤ 65536 := room
  have fitsBound : base + 65536 < 2 ^ 32 := fits
  have largeBound : 12 + request ≤ size := large
  have ptr : u32 (base + total cells + headerSize) = base + total cells + headerSize := by
    unfold u32 headerSize
    omega
  have inMemory : base + total cells + headerSize ≤ 2 ^ 32 := by
    unfold headerSize
    omega
  have written := header_written client.heap.memory size request inMemory (by omega)
  have refused : ¬ u32 (client.heap.heapUsed + size) > heapSize := by
    rw [sum]
    omega
  cases cells with
  | nil =>
      have call : append base size (lastHeader 0 base []) client.heap =
          (base + total [] + headerSize, { client.heap with
            heapUsed := client.heap.heapUsed + size
            memory := writeHeader client.heap.memory (base + total []) size
            freeList := base + total [] }) := by
        unfold append
        rw [if_neg refused]
        simp only [curr, ptr, sum]
        rfl
      rw [call]
      exact ⟨rfl, arena.extend aligned large written rfl room⟩
  | cons first cells =>
      obtain ⟨last, member, _⟩ := last_header_placed 0 base first cells
      have bounds := placed_bounds member
      have notNull : lastHeader 0 base (first :: cells) ≠ 0 := by omega
      have call : append base size (lastHeader 0 base (first :: cells)) client.heap =
          (base + total (first :: cells) + headerSize, { client.heap with
            heapUsed := client.heap.heapUsed + size
            memory := store32 (writeHeader client.heap.memory (base + total (first :: cells)) size)
              (lastHeader 0 base (first :: cells) + 8) (base + total (first :: cells)) }) := by
        unfold append
        rw [if_neg refused]
        simp only [curr, ptr, sum]
        rw [if_pos notNull]
      have kept := represents_same_headers (write_header_same_headers client.heap.memory
        size (Nat.le_refl _) inMemory arena.large) arena.held
      have linked := represents_link 0 ⟨size, some request⟩ inMemory arena.large kept
        written
      rw [call]
      exact ⟨rfl, arena.extend aligned large linked rfl room⟩

/-- Below the end of the arena, only header bytes may differ. -/
def KeepsPayloads (before after : Memory) (base : Nat) (cells : List Cell) : Prop :=
  ∀ address, address < base + total cells →
    (∀ place cell, (place, cell) ∈ placed base cells →
      address < place ∨ place + headerSize ≤ address) →
    readByte after address = readByte before address

include fits in
theorem flag_keeps_payloads (memory : Memory) {cells : List Cell} {place : Nat} (value : Nat)
    {cell : Cell} (bounded : total cells ≤ heapSize) (large : headerSize ≤ cell.size)
    (member : (place, cell) ∈ placed base cells) :
    KeepsPayloads memory (store32 memory (place + 4) value) base cells := by
  intro address inside off
  have bounds := placed_bounds member
  have away := off place cell member
  have fitsBound : base + heapSize < 2 ^ 32 := fits
  unfold headerSize at large away
  apply store32_off
  · omega
  · omega
  · omega

include fits in
theorem append_keeps_payloads {client : Client} {cells : List Cell}
    (arena : Arena base client cells) {size : Nat} (large : headerSize ≤ size)
    (room : client.heap.heapUsed + size ≤ heapSize) :
    KeepsPayloads client.heap.memory
      (append base size (lastHeader 0 base cells) client.heap).2.memory base cells := by
  intro address inside off
  obtain ⟨sum, curr⟩ := append_numbers fits arena room
  have used := arena.used
  have heapBound : client.heap.heapUsed + size ≤ 65536 := room
  have fitsBound : base + 65536 < 2 ^ 32 := fits
  have largeBound : 12 ≤ size := large
  have accepted : ¬ u32 (client.heap.heapUsed + size) > heapSize := by
    rw [sum]
    omega
  have header : readByte (writeHeader client.heap.memory (base + total cells) size) address =
      readByte client.heap.memory address := by
    apply write_header_off
    · unfold headerSize
      omega
    · omega
    · exact Or.inl inside
  unfold append
  rw [if_neg accepted]
  simp only [curr]
  by_cases null : lastHeader 0 base cells ≠ 0
  · rw [if_pos null]
    cases cells with
    | nil => exact absurd rfl null
    | cons first cells =>
        obtain ⟨last, member, _⟩ := last_header_placed 0 base first cells
        have bounds := placed_bounds member
        have lastLarge := arena.large last (placed_cell_mem member)
        have away := off _ last member
        unfold headerSize at lastLarge away
        refine Eq.trans ?_ header
        apply store32_off
        · omega
        · omega
        · omega
  · rw [if_neg null]
    exact header

include positive fits in
theorem malloc_reuses {client : Client} {cells : List Cell} (arena : Arena base client cells)
    {fuel size place : Nat} (enough : enoughFuel ≤ fuel)
    (found : fit (u32 (align4 size + headerSize)) base cells = some place) :
    malloc fuel base size client.heap =
      some (place + headerSize,
        { client.heap with memory := store32 client.heap.memory (place + 4) 0 }) := by
  have walked := walk_fit (u32 (align4 size + headerSize)) fuel 0 positive
    (Nat.lt_of_lt_of_le arena.short enough) arena.held
  rw [found] at walked
  obtain ⟨before, stopped⟩ := walked
  obtain ⟨cell, member, _, _⟩ := fit_placed found
  have bounds := placed_bounds member
  have bounded := arena.bounded
  have ptr : u32 (place + headerSize) = place + headerSize := by
    have cellLarge := arena.large cell (placed_cell_mem member)
    unfold u32
    omega
  have notNull : place ≠ 0 := by omega
  unfold malloc
  dsimp only
  rw [stopped]
  simp only [Option.map_some]
  rw [if_pos notNull, ptr]

include positive in
theorem malloc_appends {client : Client} {cells : List Cell} (arena : Arena base client cells)
    {fuel size : Nat} (enough : enoughFuel ≤ fuel)
    (missing : fit (u32 (align4 size + headerSize)) base cells = none) :
    malloc fuel base size client.heap =
      some (append base (u32 (align4 size + headerSize)) (lastHeader 0 base cells)
        client.heap) := by
  have walked := walk_fit (u32 (align4 size + headerSize)) fuel 0 positive
    (Nat.lt_of_lt_of_le arena.short enough) arena.held
  rw [missing] at walked
  have last : walk client.heap.memory (u32 (align4 size + headerSize)) fuel
      client.heap.freeList 0 = some (0, lastHeader 0 base cells) := walked
  unfold malloc
  dsimp only
  rw [last]
  simp only [Option.map_some]
  rw [if_neg (fun null => null rfl)]

include positive fits in
/-- A call of `malloc` returns: refused with nothing changed, or served. -/
theorem malloc_returns {client : Client} {cells : List Cell} (arena : Arena base client cells)
    {fuel size : Nat} (enough : enoughFuel ≤ fuel) (small : size ≤ heapSize) :
    ∃ result, malloc fuel base size client.heap = some result ∧
      KeepsPayloads client.heap.memory result.2.memory base cells ∧
      ((result.1 = 0 ∧ result.2.memory = client.heap.memory ∧
          result.2.freeList = client.heap.freeList ∧
          result.2.heapUsed = client.heap.heapUsed) ∨
        (result.1 ≠ 0 ∧ ∃ after,
          Arena base ⟨result.2, (result.1, size) :: client.live⟩ after)) := by
  have value := align4_value size small
  have needed := block_size_value size small
  have bounded := arena.bounded
  cases found : fit (u32 (align4 size + headerSize)) base cells with
  | some place =>
      obtain ⟨cell, member, isFree, large⟩ := fit_placed found
      refine ⟨_, malloc_reuses positive fits arena enough found, ?_,
        Or.inr ⟨?_, assign place (some size) base cells, ?_⟩⟩
      · exact flag_keeps_payloads fits client.heap.memory 0 bounded
          (arena.large cell (placed_cell_mem member)) member
      · change place + headerSize ≠ 0
        have bounds := placed_bounds member
        omega
      · apply arena_take fits arena member isFree
        omega
  | none =>
      have called := malloc_appends positive arena enough found
      rw [needed] at called
      refine ⟨_, called, ?_⟩
      by_cases room : client.heap.heapUsed + (align4 size + headerSize) ≤ heapSize
      · obtain ⟨pointer, after⟩ := arena_append positive fits arena
          (align4 size + headerSize) size (by unfold headerSize; omega) (by omega) room
        refine ⟨?_, Or.inr ⟨?_, cells ++ [⟨align4 size + headerSize, some size⟩], ?_⟩⟩
        · exact append_keeps_payloads fits arena (by omega) room
        · rw [pointer]
          omega
        · rw [pointer]
          exact after
      · have used := arena.used
        have refused : u32 (client.heap.heapUsed + (align4 size + headerSize)) > heapSize := by
          have whole : client.heap.heapUsed + (align4 size + headerSize) < 2 ^ 32 := by
            unfold headerSize
            unfold heapSize at small bounded
            omega
          unfold u32
          omega
        unfold append
        rw [if_pos refused]
        exact ⟨fun _ _ _ => rfl, Or.inl ⟨rfl, rfl, rfl, rfl⟩⟩

include fits in
theorem arena_store {client : Client} {cells : List Cell} (arena : Arena base client cells)
    {ptr size offset : Nat} (value : Byte) (held : (ptr, size) ∈ client.live)
    (inside : offset < size) :
    Arena base { client with heap := { client.heap with
      memory := writeByte client.heap.memory (ptr + offset) value } } cells := by
  obtain ⟨home, owner, member, owns, equal⟩ := mem_owned.mp (arena.live.mem_iff.mp held)
  have large := (arena.sound owner (placed_cell_mem member)).2 size owns
  have bounds := placed_bounds member
  have bounded := arena.bounded
  have same : SameHeaders client.heap.memory
      (writeByte client.heap.memory (ptr + offset) value) base cells := by
    intro place cell headerAt i bound
    have cellLarge := arena.large cell (placed_cell_mem headerAt)
    have cellBounds := placed_bounds headerAt
    have different : place + i ≠ ptr + offset := by
      rcases placed_apart member headerAt with equalCells | before | after
      · obtain ⟨rfl, rfl⟩ := Prod.mk.inj equalCells
        omega
      · change home + owner.size ≤ place at before
        omega
      · change place + cell.size ≤ home at after
        omega
    apply read_write_other
    unfold u32
    omega
  exact {
    held := represents_same_headers same arena.held
    sound := arena.sound
    aligned := arena.aligned
    used := arena.used
    bounded := arena.bounded
    live := arena.live }

include positive fits in
theorem arena_step {client : Client} {cells : List Cell} (arena : Arena base client cells)
    {fuel : Nat} (enough : enoughFuel ≤ fuel) (request : Request)
    (allowed : Allowed client request) :
    ∃ next after, answer fuel base client request = some next ∧ Arena base next after := by
  cases request with
  | malloc size =>
      obtain ⟨result, call, _, outcome⟩ := malloc_returns positive fits arena enough allowed
      have answered : answer fuel base client (.malloc size) =
          some ⟨result.2, if result.1 = 0 then client.live
            else (result.1, size) :: client.live⟩ := by
        change Option.map _ (malloc fuel base size client.heap) = _
        rw [call]
        rfl
      rcases outcome with ⟨null, memory, freeList, heapUsed⟩ | ⟨notNull, after, served⟩
      · refine ⟨_, cells, answered, ?_⟩
        rw [if_pos null]
        exact {
          held := by rw [memory, freeList]; exact arena.held
          sound := arena.sound
          aligned := arena.aligned
          used := heapUsed.trans arena.used
          bounded := arena.bounded
          live := arena.live }
      · refine ⟨_, after, answered, ?_⟩
        rw [if_neg notNull]
        exact served
  | free ptr =>
      by_cases null : ptr = 0
      · have kept : client.live.filter (fun entry => entry.1 ≠ ptr) = client.live := by
          apply List.filter_eq_self.mpr
          intro entry member
          have above := owned_above (arena.live.mem_iff.mp member)
          have different : entry.1 ≠ ptr := by omega
          exact decide_eq_true different
        have released : free ptr client.heap = client.heap := if_pos null
        refine ⟨client, cells, ?_, arena⟩
        change some (Client.mk (free ptr client.heap)
          (client.live.filter fun entry => entry.1 ≠ ptr)) = some client
        rw [released, kept]
      · obtain ⟨size, held⟩ := allowed.resolve_left null
        exact ⟨_, _, rfl, arena_release fits arena held⟩
  | store ptr offset value =>
      obtain ⟨size, held, inside⟩ := allowed
      exact ⟨_, cells, rfl, arena_store fits arena value held inside⟩

include positive fits in
theorem arena_run {fuel : Nat} (enough : enoughFuel ≤ fuel) {client : Client} {cells : List Cell}
    (arena : Arena base client cells) (requests : List Request)
    (allowed : AllAllowed fuel base client requests) :
    ∃ final after, answerAll fuel base client requests = some final ∧ Arena base final after := by
  induction requests generalizing client cells with
  | nil => exact ⟨client, cells, rfl, arena⟩
  | cons request requests ih =>
      obtain ⟨next, after, answered, arenaNext⟩ :=
        arena_step positive fits arena enough request allowed.1
      obtain ⟨final, last, run, arenaFinal⟩ := ih arenaNext (allowed.2 next answered)
      refine ⟨final, last, ?_, arenaFinal⟩
      unfold answerAll
      rw [answered]
      exact run

theorem represents_reached {memory : Memory} {pointer start : Nat} {cells : List Cell}
    (above : 0 < start) (held : Represents memory pointer start cells) :
    Reached memory pointer ((placed start cells).map Prod.fst) ∧
      Tiles memory (start + total cells) start ((placed start cells).map Prod.fst) := by
  induction cells generalizing pointer start with
  | nil => exact ⟨held, rfl⟩
  | cons cell cells ih =>
      obtain ⟨at_start, size, _, rest⟩ := held
      obtain ⟨reached, tiles⟩ := ih (by omega) rest
      refine ⟨⟨at_start, Nat.ne_of_gt above, reached⟩, rfl, ?_⟩
      rw [size, total_cons, ← Nat.add_assoc]
      exact tiles

theorem represents_header {memory : Memory} {pointer start place : Nat} {cells : List Cell}
    {cell : Cell} (held : Represents memory pointer start cells)
    (member : (place, cell) ∈ placed start cells) :
    blockSize memory place = cell.size ∧
      blockFree memory place = if cell.owner = none then 1 else 0 := by
  induction cells generalizing pointer start with
  | nil => cases member
  | cons first cells ih =>
      obtain ⟨_, size, flag, rest⟩ := held
      rcases List.mem_cons.mp member with same | later
      · obtain ⟨rfl, rfl⟩ := Prod.mk.inj same
        exact ⟨size, flag⟩
      · exact ih rest later

theorem represents_last {memory : Memory} {pointer start : Nat} {first : Cell}
    {cells : List Cell} (prev : Nat) (held : Represents memory pointer start (first :: cells)) :
    blockNext memory (lastHeader prev start (first :: cells)) = 0 := by
  induction cells generalizing pointer start first prev with
  | nil =>
      obtain ⟨_, _, _, rest⟩ := held
      exact rest
  | cons second cells ih =>
      obtain ⟨_, _, _, rest⟩ := held
      exact ih start rest

theorem reached_unique {memory : Memory} {pointer : Nat} {left right : List Nat}
    (first : Reached memory pointer left) (second : Reached memory pointer right) :
    left = right := by
  induction left generalizing pointer right with
  | nil =>
      cases right with
      | nil => rfl
      | cons block blocks => exact absurd (second.1.symm.trans first) second.2.1
  | cons block blocks ih =>
      obtain ⟨here, notNull, rest⟩ := first
      cases right with
      | nil => exact absurd (here.symm.trans second) notNull
      | cons other others =>
          obtain ⟨there, _, others_rest⟩ := second
          have same : block = other := here.symm.trans there
          subst same
          rw [ih rest others_rest]

theorem live_cell {client : Client} {cells : List Cell} (arena : Arena base client cells)
    {ptr request : Nat} (held : (ptr, request) ∈ client.live) :
    ∃ place cell, (place, cell) ∈ placed base cells ∧ ptr = place + headerSize ∧
      headerSize + request ≤ cell.size ∧
      payloadEnd client.heap.memory ptr = place + cell.size := by
  obtain ⟨place, cell, member, owns, equal⟩ := mem_owned.mp (arena.live.mem_iff.mp held)
  have large := (arena.sound cell (placed_cell_mem member)).2 request owns
  refine ⟨place, cell, member, equal, large, ?_⟩
  unfold payloadEnd
  rw [equal, Nat.add_sub_cancel, (represents_header arena.held member).1]

include positive in
theorem arena_invariant {client : Client} {cells : List Cell} (arena : Arena base client cells) :
    HeapInvariant base client ((placed base cells).map Prod.fst) := by
  obtain ⟨reached, tiles⟩ := represents_reached positive arena.held
  have bounded := arena.bounded
  constructor
  · exact reached
  · rw [arena.used]
    exact tiles
  · rw [arena.used]
    exact bounded
  · intro block member
    obtain ⟨⟨place, cell⟩, inside, rfl⟩ := List.mem_map.mp member
    rw [(represents_header arena.held inside).1]
    exact ⟨arena.aligned cell (placed_cell_mem inside), arena.large cell (placed_cell_mem inside)⟩
  · intro ptr size held
    obtain ⟨place, cell, member, equal, large, ends⟩ := live_cell arena held
    have bounds := placed_bounds member
    rw [ends]
    omega
  · have sorted := owned_sorted headerSize (blockSize client.heap.memory) base cells
      fun place cell member => (represents_header arena.held member).1
    have apart : (owned headerSize base cells).Pairwise fun left right =>
        payloadEnd client.heap.memory left.1 ≤ right.1 ∨
          payloadEnd client.heap.memory right.1 ≤ left.1 := by
      refine sorted.imp ?_
      intro left right before
      left
      unfold payloadEnd
      omega
    exact (arena.live.pairwise_iff fun before => before.symm).mpr apart
  · intro ptr size held block blockMember
    obtain ⟨⟨place, cell⟩, inside, rfl⟩ := List.mem_map.mp blockMember
    obtain ⟨home, owner, member, equal, large, ends⟩ := live_cell arena held
    have cellLarge := arena.large cell (placed_cell_mem inside)
    rw [ends, equal]
    rcases placed_apart member inside with same | before | after
    · obtain ⟨rfl, rfl⟩ := Prod.mk.inj same
      exact Or.inr (Nat.le_refl _)
    · exact Or.inl before
    · change place + cell.size ≤ home at after
      right
      change place + headerSize ≤ home + headerSize
      omega

theorem payload_kept {client : Client} {cells : List Cell} (arena : Arena base client cells)
    {after : Memory} (keeps : KeepsPayloads client.heap.memory after base cells)
    {ptr request address : Nat} (held : (ptr, request) ∈ client.live) (above : ptr ≤ address)
    (below : address < payloadEnd client.heap.memory ptr) :
    readByte after address = readByte client.heap.memory address := by
  obtain ⟨home, owner, member, equal, large, ends⟩ := live_cell arena held
  have bounds := placed_bounds member
  apply keeps
  · omega
  · intro place cell inside
    have cellLarge := arena.large cell (placed_cell_mem inside)
    rcases placed_apart member inside with same | before | after
    · obtain ⟨rfl, rfl⟩ := Prod.mk.inj same
      omega
    · change home + owner.size ≤ place at before
      omega
    · change place + cell.size ≤ home at after
      omega

include positive fits in
theorem arena_undisturbed {client : Client} {cells : List Cell} (arena : Arena base client cells)
    {fuel : Nat} (enough : enoughFuel ≤ fuel) : Undisturbed fuel base client := by
  constructor
  · intro size result small call ptr request held address above below
    obtain ⟨returned, called, keeps, _⟩ := malloc_returns positive fits arena enough small
    rw [called] at call
    obtain rfl := Option.some.inj call
    exact payload_kept arena keeps held above below
  · intro released allowed ptr request held address above below
    by_cases null : released = 0
    · unfold free
      rw [if_pos null]
    · obtain ⟨size, heldReleased⟩ := allowed.resolve_left null
      obtain ⟨place, cell, member, _, called⟩ := free_call fits arena heldReleased
      have keeps := flag_keeps_payloads fits client.heap.memory 1 arena.bounded
        (arena.large cell (placed_cell_mem member)) member
      rw [called]
      exact payload_kept arena keeps held above below
  · intro size heap small call
    obtain ⟨returned, called, _, outcome⟩ := malloc_returns positive fits arena enough small
    rw [called] at call
    obtain rfl := Option.some.inj call
    rcases outcome with ⟨_, memory, freeList, heapUsed⟩ | ⟨notNull, _⟩
    · exact ⟨memory, freeList, heapUsed⟩
    · exact absurd rfl notNull

end Heap

theorem arena_empty (base : Nat) (memory : Memory) : Arena base ⟨emptyHeap memory, []⟩ [] where
  held := rfl
  sound := fun _ impossible => absurd impossible List.not_mem_nil
  aligned := fun _ impossible => absurd impossible List.not_mem_nil
  used := rfl
  bounded := Nat.zero_le heapSize
  live := List.Perm.refl []

/-- Every allowed sequence of requests is answered, keeps the heap well formed
and reaches a state whose next calls disturb nothing that is in use. -/
theorem heap_invariant_always (base fuel : Nat) (memory : Memory) (requests : List Request)
    (positive : 0 < base) (fits : base + heapSize < 2 ^ 32) (enough : enoughFuel ≤ fuel)
    (allowed : AllAllowed fuel base ⟨emptyHeap memory, []⟩ requests) :
    ∃ final, answerAll fuel base ⟨emptyHeap memory, []⟩ requests = some final ∧
      (∃ blocks, HeapInvariant base final blocks) ∧ Undisturbed fuel base final := by
  obtain ⟨final, cells, run, arena⟩ :=
    arena_run positive fits enough (arena_empty base memory) requests allowed
  exact ⟨final, run, ⟨_, arena_invariant positive arena⟩,
    arena_undisturbed positive fits arena enough⟩

def sampleRequests : List Request :=
  [.malloc 10, .store 0x20000C 3 7, .free 0x20000C, .malloc 0, .free 0]

theorem heap_invariant_sample :
    ∃ final, answerAll 6000 0x200000 ⟨emptyHeap fun _ => 0, []⟩ sampleRequests = some final ∧
      (∃ blocks, HeapInvariant 0x200000 final blocks) ∧ Undisturbed 6000 0x200000 final := by
  apply heap_invariant_always 0x200000 6000 (fun _ => 0) sampleRequests (by decide) (by decide)
    (by decide)
  have small : 10 ≤ heapSize := by decide
  refine ⟨small, ?_⟩
  intro first answered
  have live : first.live = [(0x20000C, 10)] := by
    rw [← Option.some.inj answered]
    rfl
  refine ⟨⟨10, by rw [live]; exact List.mem_singleton.mpr rfl, by decide⟩, ?_⟩
  intro second stored
  have kept : second.live = [(0x20000C, 10)] := by
    rw [← live, ← Option.some.inj stored]
  refine ⟨Or.inr ⟨10, by rw [kept]; exact List.mem_singleton.mpr rfl⟩, ?_⟩
  intro third _
  exact ⟨Nat.zero_le heapSize, fun _ _ => ⟨Or.inl rfl, fun _ _ => trivial⟩⟩

end LumenOS.HeapHistory
