import LumenOS.HeapHistory

/-!
# What `malloc` answers in a heap with a history

A request is rounded up, the header is added, and so is `heap_used` before the
comparison with `HEAP_SIZE`: three sums of 32 bits. The first part says for
which requests they count right, the second what is left to ask for once
everything has been freed.
-/

namespace LumenOS.HeapRequests

open LumenOS.ByteMemory LumenOS.FirstFit LumenOS.HeapModel LumenOS.HeapHistory

set_option autoImplicit false

/-- What a request takes from the heap, counted without a bound. -/
def need (n : Nat) : Nat := 4 * ((n + 3) / 4) + headerSize

def SameBlocks (before after : Heap) : Prop :=
  ∃ blocks, Reached before.memory before.freeList blocks ∧
    Reached after.memory after.freeList blocks ∧
    ∀ block ∈ blocks, blockSize after.memory block = blockSize before.memory block ∧
      blockFree after.memory block = blockFree before.memory block ∧
      blockNext after.memory block = blockNext before.memory block

structure Served (base n : Nat) (client : Client) (ptr : Nat) (after : Heap) : Prop where
  inside : base ≤ ptr ∧ ptr + n ≤ base + heapSize
  offLive : ∀ other size, (other, size) ∈ client.live → Disjoint ptr n other size
  offHeaders : ∃ blocks, Reached after.memory after.freeList blocks ∧
    ∀ block ∈ blocks, Disjoint ptr n block headerSize
  used : client.heap.heapUsed ≤ after.heapUsed

def Answered (base n : Nat) (client : Client) (result : Nat × Heap) : Prop :=
  (result.1 = 0 ∧ result.2.heapUsed = client.heap.heapUsed ∧
      SameBlocks client.heap result.2) ∨
    (result.1 ≠ 0 ∧ Served base n client result.1 result.2)

def NoFreeBlock (heap : Heap) : Prop :=
  ∀ blocks, Reached heap.memory heap.freeList blocks →
    ∀ block ∈ blocks, blockFree heap.memory block = 0

/-- No sum wraps, or what is left of a wrapped request is refused all the same. -/
def CountsRight (heap : Heap) (n : Nat) : Prop :=
  heap.heapUsed + need n < 2 ^ 32 ∨
    (2 ^ 32 ≤ need n ∧ NoFreeBlock heap ∧ heapSize < heap.heapUsed + (need n - 2 ^ 32))

theorem block_size_need (n : Nat) (word : n < 2 ^ 32) :
    u32 (align4 n + headerSize) = u32 (need n) := by
  unfold align4 need u32 headerSize
  rw [Nat.shiftLeft_eq, Nat.shiftRight_eq_div_pow]
  by_cases zero : n = 0
  · subst zero
    decide
  · have low : (n + (2 ^ 32 - 1)) % 2 ^ 32 = n - 1 := by omega
    rw [low]
    omega

theorem need_bounds (n : Nat) : n + headerSize ≤ need n ∧ need n ≤ n + 3 + headerSize := by
  unfold need
  omega

theorem same_blocks_refl {base : Nat} {client : Client} {cells : List Cell} (positive : 0 < base)
    (arena : Arena base client cells) (serial : List String) :
    SameBlocks client.heap { client.heap with serial := serial } := by
  obtain ⟨reached, _⟩ := represents_reached positive arena.held
  exact ⟨_, reached, reached, fun _ _ => ⟨rfl, rfl, rfl⟩⟩

section Arena

variable {base : Nat} (positive : 0 < base) (fits : base + heapSize < 2 ^ 32)
variable {client : Client} {cells : List Cell}

include positive in
theorem no_free_block_iff (arena : Arena base client cells) :
    NoFreeBlock client.heap ↔ ∀ cell ∈ cells, cell.owner ≠ none := by
  obtain ⟨reached, _⟩ := represents_reached positive arena.held
  constructor
  · intro noFree cell member free
    obtain ⟨place, inside⟩ := mem_placed base member
    have cleared := noFree _ reached place (List.mem_map_of_mem inside)
    rw [(represents_header arena.held inside).2, if_pos free] at cleared
    cases cleared
  · intro taken blocks others block blockMember
    rw [reached_unique others reached] at blockMember
    obtain ⟨⟨place, cell⟩, inside, rfl⟩ := List.mem_map.mp blockMember
    have owned := taken cell (placed_cell_mem inside)
    rw [(represents_header arena.held inside).2, if_neg owned]

theorem fit_header_iff (arena : Arena base client cells) {size : Nat} (small : size ≤ headerSize) :
    fit size base cells = none ↔ ∀ cell ∈ cells, cell.owner ≠ none := by
  rw [fit_none_iff]
  constructor
  · intro missing cell member free
    have short := missing cell member free
    have large := arena.large cell member
    omega
  · intro taken cell member free
    exact absurd free (taken cell member)

theorem cell_bounded (arena : Arena base client cells) :
    ∀ cell ∈ cells, cell.size ≤ heapSize := by
  intro cell member
  obtain ⟨place, inside⟩ := mem_placed base member
  have bounds := placed_bounds inside
  have bounded := arena.bounded
  omega

theorem fit_too_large (arena : Arena base client cells) {size : Nat} (large : heapSize < size) :
    fit size base cells = none := by
  rw [fit_none_iff]
  intro cell member _
  have small := cell_bounded arena cell member
  omega

theorem append_refused {size prev : Nat} {heap : Heap}
    (beyond : heapSize < u32 (heap.heapUsed + size)) :
    append base size prev heap = (0, { heap with serial := heap.serial ++ [outOfMemory] }) := by
  unfold append
  rw [if_pos beyond]

theorem append_used {size prev : Nat} {heap : Heap}
    (room : u32 (heap.heapUsed + size) ≤ heapSize) :
    (append base size prev heap).2.heapUsed = u32 (heap.heapUsed + size) := by
  unfold append
  rw [if_neg (Nat.not_lt.mpr room)]
  dsimp only
  by_cases null : prev ≠ 0
  · rw [if_pos null]
  · rw [if_neg null]

include positive fits in
theorem malloc_used_grows (arena : Arena base client cells) {fuel n : Nat}
    (enough : enoughFuel ≤ fuel) (small : n ≤ heapSize) {result : Nat × Heap}
    (called : malloc fuel base n client.heap = some result) :
    client.heap.heapUsed ≤ result.2.heapUsed := by
  cases found : fit (u32 (align4 n + headerSize)) base cells with
  | some place =>
      rw [malloc_reuses positive fits arena enough found] at called
      obtain rfl := Option.some.inj called
      exact Nat.le_refl client.heap.heapUsed
  | none =>
      rw [malloc_appends positive arena enough found] at called
      obtain rfl := Option.some.inj called
      have value := align4_value n small
      rw [block_size_value n small]
      by_cases room : u32 (client.heap.heapUsed + (align4 n + headerSize)) ≤ heapSize
      · have whole : u32 (client.heap.heapUsed + (align4 n + headerSize)) =
            client.heap.heapUsed + (align4 n + headerSize) := by
          have used := arena.used
          have bounded : total cells ≤ 65536 := arena.bounded
          have bound : n ≤ 65536 := small
          unfold u32 headerSize
          omega
        rw [append_used room, whole]
        exact Nat.le_add_right _ _
      · have refused := @append_refused base _ (lastHeader 0 base cells) client.heap
          (Nat.lt_of_not_le room)
        exact Nat.le_of_eq (congrArg (fun result => result.2.heapUsed) refused).symm

include positive fits in
theorem served_small (arena : Arena base client cells) {fuel n : Nat} (enough : enoughFuel ≤ fuel)
    (small : n ≤ heapSize) :
    ∃ result, malloc fuel base n client.heap = some result ∧ Answered base n client result := by
  obtain ⟨result, called, _, outcome⟩ := malloc_returns positive fits arena enough small
  refine ⟨result, called, ?_⟩
  obtain ⟨reached, _⟩ := represents_reached positive arena.held
  rcases outcome with ⟨null, memory, freeList, heapUsed⟩ | ⟨notNull, after, served⟩
  · left
    refine ⟨null, heapUsed, _, reached, ?_, ?_⟩
    · rw [memory, freeList]
      exact reached
    · rw [memory]
      exact fun _ _ => ⟨rfl, rfl, rfl⟩
  · right
    have bounds := arena_invariant positive served
    obtain ⟨above, payload, ends⟩ := bounds.inside result.1 n List.mem_cons_self
    have apart := List.pairwise_cons.mp bounds.apart
    refine ⟨notNull, ⟨above, Nat.le_trans payload ends⟩, ?_, ⟨_, bounds.reached, ?_⟩, ?_⟩
    · intro other size held
      obtain ⟨_, otherPayload, otherEnds⟩ :=
        bounds.inside other size (List.mem_cons_of_mem _ held)
      have separate := apart.1 (other, size) held
      dsimp only at separate payload ends otherPayload otherEnds
      apply disjoint_of_separate
      · omega
      · omega
      · omega
    · intro block member
      have separate := bounds.offHeaders result.1 n List.mem_cons_self block member
      obtain ⟨⟨place, cell⟩, inside, rfl⟩ := List.mem_map.mp member
      have cellBounds := placed_bounds inside
      have cellLarge := served.large cell (placed_cell_mem inside)
      have bounded := served.bounded
      dsimp only at separate payload ends ⊢
      apply disjoint_of_separate
      · omega
      · omega
      · omega
    · exact malloc_used_grows positive fits arena enough small called

theorem not_served_large {n ptr : Nat} {after : Heap} (large : heapSize < n) :
    ¬ Served base n client ptr after := by
  intro served
  have inside := served.inside
  omega

/-- Whoever moves `heap_used` without serving the request has answered wrongly. -/
theorem not_answered_moved {n : Nat} {result : Nat × Heap} (large : heapSize < n)
    (moved : result.2.heapUsed ≠ client.heap.heapUsed) : ¬ Answered base n client result := by
  intro answered
  rcases answered with refused | served
  · exact moved refused.2.1
  · exact not_served_large large served.2

include positive in
theorem empty_block_changes (arena : Arena base client cells) (fits : base + heapSize < 2 ^ 32) :
    ¬ SameBlocks client.heap (append base 0 (lastHeader 0 base cells) client.heap).2 := by
  intro same
  obtain ⟨blocks, reached, after, words⟩ := same
  obtain ⟨own, _⟩ := represents_reached positive arena.held
  have used := arena.used
  have bounded := arena.bounded
  have room : ¬ u32 (client.heap.heapUsed + 0) > heapSize := by
    have small : u32 (client.heap.heapUsed + 0) ≤ client.heap.heapUsed + 0 := Nat.mod_le _ _
    omega
  have curr : u32 (base + client.heap.heapUsed) = base + total cells := by
    unfold u32
    omega
  unfold append at after words
  rw [if_neg room] at after words
  rw [curr] at after words
  rw [reached_unique reached own] at after words
  cases cells with
  | nil =>
      have head : base + total [] = 0 := after
      omega
  | cons first rest =>
      obtain ⟨last, member, _⟩ := last_header_placed 0 base first rest
      have above := placed_bounds member
      have notNull : lastHeader 0 base (first :: rest) ≠ 0 := by omega
      rw [if_pos notNull] at words
      have next := (words _ (List.mem_map_of_mem member)).2.2
      dsimp only at next
      rw [represents_last 0 arena.held] at next
      unfold blockNext at next
      rw [load_store_same] at next
      unfold u32 at next
      omega

/-- What is left of a wrapped request: at most a header. -/
theorem wrapped_rest {n : Nat} (word : n < 2 ^ 32) (wrapped : 2 ^ 32 ≤ need n) :
    u32 (align4 n + headerSize) = need n - 2 ^ 32 ∧ need n - 2 ^ 32 ≤ headerSize ∧
      heapSize < n := by
  have bounds := need_bounds n
  unfold headerSize at bounds
  refine ⟨?_, ?_, ?_⟩
  · rw [block_size_need n word]
    unfold u32
    omega
  · unfold need headerSize
    omega
  · unfold heapSize
    omega

/-- A block handed out for a request larger than the heap does not serve it. -/
theorem reused_not_answered {place n : Nat} {heap : Heap} (large : heapSize < n) :
    ¬ Answered base n client (place + headerSize, heap) := by
  intro answered
  rcases answered with refused | served
  · have null : place + headerSize = 0 := refused.1
    unfold headerSize at null
    omega
  · exact not_served_large large served.2

include positive fits in
theorem appended_rest_iff (arena : Arena base client cells) {n rest : Nat} (large : heapSize < n)
    (tiny : rest ≤ headerSize) :
    Answered base n client (append base rest (lastHeader 0 base cells) client.heap) ↔
      heapSize < client.heap.heapUsed + rest := by
  have used := arena.used
  have bounded : total cells ≤ 65536 := arena.bounded
  have sum : u32 (client.heap.heapUsed + rest) = client.heap.heapUsed + rest := by
    unfold headerSize at tiny
    unfold u32
    omega
  constructor
  · intro answered
    by_contra room
    by_cases zero : rest = 0
    · subst zero
      rcases answered with refused | served
      · exact empty_block_changes positive arena fits refused.2.2
      · exact not_served_large large served.2
    · have moved := @append_used base _ (lastHeader 0 base cells) client.heap
        (by rw [sum]; exact Nat.le_of_not_lt room)
      refine not_answered_moved large ?_ answered
      omega
  · intro beyond
    rw [append_refused (by rw [sum]; exact beyond)]
    exact Or.inl ⟨rfl, rfl, same_blocks_refl positive arena _⟩

include positive fits in
/-- What is left of a wrapped request is at most a header: any free block will do. -/
theorem answered_wrapped_iff (arena : Arena base client cells) {fuel n : Nat}
    (enough : enoughFuel ≤ fuel) (word : n < 2 ^ 32) (wrapped : 2 ^ 32 ≤ need n) :
    ∃ result, malloc fuel base n client.heap = some result ∧
      (Answered base n client result ↔ CountsRight client.heap n) := by
  obtain ⟨rest, tiny, large⟩ := wrapped_rest word wrapped
  have noSum : ¬ client.heap.heapUsed + need n < 2 ^ 32 := by omega
  by_cases taken : ∀ cell ∈ cells, cell.owner ≠ none
  · have missing : fit (u32 (align4 n + headerSize)) base cells = none := by
      rw [rest]
      exact (fit_header_iff arena tiny).mpr taken
    have called := malloc_appends positive arena enough missing
    rw [rest] at called
    refine ⟨_, called, (appended_rest_iff positive fits arena large tiny).trans ?_⟩
    constructor
    · exact fun beyond => Or.inr ⟨wrapped, (no_free_block_iff positive arena).mpr taken, beyond⟩
    · exact fun right => (right.resolve_left noSum).2.2
  · obtain ⟨place, found⟩ : ∃ place, fit (u32 (align4 n + headerSize)) base cells = some place := by
      rw [rest]
      apply Option.ne_none_iff_exists'.mp
      exact fun missing => taken ((fit_header_iff arena tiny).mp missing)
    refine ⟨_, malloc_reuses positive fits arena enough found, ?_⟩
    constructor
    · exact fun answered => absurd answered (reused_not_answered large)
    · intro right
      have noFree := right.resolve_left noSum
      exact absurd ((no_free_block_iff positive arena).mp noFree.2.1) taken

include positive fits in
theorem answered_large_iff (arena : Arena base client cells) {fuel n : Nat}
    (enough : enoughFuel ≤ fuel) (large : heapSize < n) (word : n < 2 ^ 32) :
    ∃ result, malloc fuel base n client.heap = some result ∧
      (Answered base n client result ↔ CountsRight client.heap n) := by
  have bounds := need_bounds n
  have block := block_size_need n word
  have used := arena.used
  have bounded : total cells ≤ 65536 := arena.bounded
  have beyond : 65536 < n := large
  by_cases whole : need n < 2 ^ 32
  · have small : u32 (need n) = need n := Nat.mod_eq_of_lt whole
    have missing : fit (u32 (align4 n + headerSize)) base cells = none := by
      rw [block, small]
      apply fit_too_large arena
      omega
    have called := malloc_appends positive arena enough missing
    rw [block, small] at called
    refine ⟨_, called, ?_⟩
    by_cases sum : client.heap.heapUsed + need n < 2 ^ 32
    · have refused : heapSize < u32 (client.heap.heapUsed + need n) := by
        rw [u32, Nat.mod_eq_of_lt sum]
        omega
      rw [append_refused refused]
      constructor
      · exact fun _ => Or.inl sum
      · exact fun _ => Or.inl ⟨rfl, rfl, same_blocks_refl positive arena _⟩
    · -- the sum comes out below heap_used and passes for room
      have wrapped : u32 (client.heap.heapUsed + need n) =
          client.heap.heapUsed + need n - 2 ^ 32 := by
        unfold u32
        omega
      have room : u32 (client.heap.heapUsed + need n) ≤ heapSize := by
        unfold heapSize
        omega
      constructor
      · intro answered
        have moved := @append_used base _ (lastHeader 0 base cells) client.heap room
        refine absurd answered (not_answered_moved large ?_)
        omega
      · intro right
        rcases right with right | right
        · exact absurd right sum
        · exact absurd whole (Nat.not_lt.mpr right.1)
  · exact answered_wrapped_iff positive fits arena enough word (Nat.le_of_not_lt whole)

theorem counts_right_small (arena : Arena base client cells) {n : Nat} (small : n ≤ heapSize) :
    CountsRight client.heap n := by
  have used := arena.used
  have bounded : total cells ≤ 65536 := arena.bounded
  have bound : n ≤ 65536 := small
  left
  unfold need headerSize
  omega

theorem free_cells (arena : Arena base client cells) (released : client.live = []) :
    ∀ cell ∈ cells, cell.owner = none := by
  intro cell member
  obtain ⟨place, inside⟩ := mem_placed base member
  cases owner : cell.owner with
  | none => rfl
  | some request =>
      have held : (place + headerSize, request) ∈ owned headerSize base cells :=
        mem_owned.mpr ⟨place, cell, inside, owner, rfl⟩
      rw [← arena.live.mem_iff, released] at held
      exact absurd held List.not_mem_nil

theorem free_fit_none_iff (arena : Arena base client cells) (released : client.live = [])
    (size : Nat) :
    fit size base cells = none ↔
      ¬ ∃ block ∈ (placed base cells).map Prod.fst,
        size ≤ blockSize client.heap.memory block := by
  rw [fit_none_iff]
  constructor
  · rintro short ⟨block, blockMember, large⟩
    obtain ⟨⟨place, cell⟩, inside, rfl⟩ := List.mem_map.mp blockMember
    rw [(represents_header arena.held inside).1] at large
    have member := placed_cell_mem inside
    have small := short cell member (free_cells arena released cell member)
    omega
  · intro noBlock cell member _
    obtain ⟨place, inside⟩ := mem_placed base member
    apply Nat.lt_of_not_le
    intro large
    refine noBlock ⟨place, List.mem_map_of_mem inside, ?_⟩
    rw [(represents_header arena.held inside).1]
    exact large

include positive fits in
theorem released_answer_iff (arena : Arena base client cells) (released : client.live = [])
    {fuel n : Nat} (enough : enoughFuel ≤ fuel) (fitting : need n ≤ heapSize) :
    ∃ result, malloc fuel base n client.heap = some result ∧
      (result.1 ≠ 0 ↔
        (∃ block ∈ (placed base cells).map Prod.fst,
          need n ≤ blockSize client.heap.memory block) ∨
        client.heap.heapUsed + need n ≤ heapSize) := by
  have used := arena.used
  have bounded : total cells ≤ 65536 := arena.bounded
  have bounds := need_bounds n
  have size : need n ≤ 65536 := fitting
  unfold headerSize at bounds
  have block : u32 (align4 n + headerSize) = need n := by
    rw [block_size_need n (by omega)]
    unfold u32
    omega
  have blocks := free_fit_none_iff arena released (need n)
  cases found : fit (u32 (align4 n + headerSize)) base cells with
  | some place =>
      refine ⟨_, malloc_reuses positive fits arena enough found, ?_⟩
      constructor
      · intro _
        left
        by_contra noBlock
        rw [block, blocks.mpr noBlock] at found
        cases found
      · intro _
        change place + headerSize ≠ 0
        unfold headerSize
        omega
  | none =>
      have called := malloc_appends positive arena enough found
      rw [block] at called found
      have noBlock := blocks.mp found
      refine ⟨_, called, ?_⟩
      have sum : u32 (client.heap.heapUsed + need n) = client.heap.heapUsed + need n := by
        unfold u32
        omega
      by_cases room : client.heap.heapUsed + need n ≤ heapSize
      · obtain ⟨pointer, _⟩ := arena_append positive fits arena (need n) n
          (by unfold need headerSize; omega) (by unfold headerSize; omega) room
        constructor
        · exact fun _ => Or.inr room
        · intro _
          rw [pointer]
          omega
      · rw [append_refused (by rw [sum]; exact Nat.lt_of_not_le room)]
        constructor
        · exact fun notNull => absurd rfl notNull
        · exact fun served => absurd served (fun either => either.elim noBlock room)

end Arena

/-- After every history, `malloc` answers a request of any size as it should
exactly when its sums count right. -/
theorem malloc_answers_iff (base fuel n : Nat) (memory : Memory) (requests : List Request)
    (positive : 0 < base) (fits : base + heapSize < 2 ^ 32) (enough : enoughFuel ≤ fuel)
    (word : n < 2 ^ 32) (allowed : AllAllowed fuel base ⟨emptyHeap memory, []⟩ requests) :
    ∃ client, answerAll fuel base ⟨emptyHeap memory, []⟩ requests = some client ∧
      ∃ result, malloc fuel base n client.heap = some result ∧
        (Answered base n client result ↔ CountsRight client.heap n) := by
  obtain ⟨client, cells, run, arena⟩ :=
    arena_run positive fits enough (arena_empty base memory) requests allowed
  refine ⟨client, run, ?_⟩
  by_cases small : n ≤ heapSize
  · obtain ⟨result, called, answered⟩ := served_small positive fits arena enough small
    exact ⟨result, called, fun _ => counts_right_small arena small, fun _ => answered⟩
  · exact answered_large_iff positive fits arena enough (Nat.lt_of_not_le small) word

/-- On the empty heap, a request of all addresses but one gets twelve bytes. -/
theorem malloc_answers_all_ones :
    ∃ result, malloc 6000 0x200000 0xFFFFFFFF (emptyHeap fun _ => 0) = some result ∧
      result.1 = 0x20000C ∧ result.2.heapUsed = 12 ∧
      ¬ Answered 0x200000 0xFFFFFFFF ⟨emptyHeap fun _ => 0, []⟩ result := by
  refine ⟨_, rfl, by decide, by decide, ?_⟩
  intro answered
  rcases answered with refused | served
  · have null := refused.1
    revert null
    decide
  · exact not_served_large (by decide) served.2

theorem malloc_answers_sample :
    ∃ client, answerAll 6000 0x200000 ⟨emptyHeap fun _ => 0, []⟩ [.malloc 10] = some client ∧
      ∃ result, malloc 6000 0x200000 0xFFFF0000 client.heap = some result ∧
        (Answered 0x200000 0xFFFF0000 client result ↔ CountsRight client.heap 0xFFFF0000) := by
  apply malloc_answers_iff 0x200000 6000 0xFFFF0000 (fun _ => 0) [.malloc 10] (by decide)
    (by decide) (by decide) (by decide)
  have small : 10 ≤ heapSize := by decide
  exact ⟨small, fun _ _ => trivial⟩

/-- Once everything has been freed, a request is served exactly when one block
of the list is large enough or the room behind the blocks is. -/
theorem malloc_after_release_iff (base fuel : Nat) (memory : Memory) (requests : List Request)
    (positive : 0 < base) (fits : base + heapSize < 2 ^ 32) (enough : enoughFuel ≤ fuel)
    (allowed : AllAllowed fuel base ⟨emptyHeap memory, []⟩ requests) :
    ∃ client, answerAll fuel base ⟨emptyHeap memory, []⟩ requests = some client ∧
      ∃ blocks, Reached client.heap.memory client.heap.freeList blocks ∧
        (client.live = [] → ∀ n, need n ≤ heapSize →
          ∃ result, malloc fuel base n client.heap = some result ∧
            (result.1 ≠ 0 ↔
              (∃ block ∈ blocks, need n ≤ blockSize client.heap.memory block) ∨
                client.heap.heapUsed + need n ≤ heapSize)) := by
  obtain ⟨client, cells, run, arena⟩ :=
    arena_run positive fits enough (arena_empty base memory) requests allowed
  obtain ⟨reached, _⟩ := represents_reached positive arena.held
  refine ⟨client, run, _, reached, ?_⟩
  intro released n fitting
  exact released_answer_iff positive fits arena released enough fitting

def largeThenFree : List Request := [.malloc 40000, .free 0x20000C]

theorem large_then_free_allowed :
    AllAllowed 6000 0x200000 ⟨emptyHeap fun _ => 0, []⟩ largeThenFree := by
  have small : 40000 ≤ heapSize := by decide
  refine ⟨small, ?_⟩
  intro next answered
  have live : next.live = [(0x20000C, 40000)] := by
    rw [← Option.some.inj answered]
    decide +kernel
  refine ⟨Or.inr ⟨40000, ?_⟩, fun _ _ => trivial⟩
  rw [live]
  exact List.mem_singleton.mpr rfl

theorem malloc_after_release_refused :
    AllAllowed 6000 0x200000 ⟨emptyHeap fun _ => 0, []⟩ largeThenFree ∧
      need 65000 ≤ heapSize ∧
      ∃ client, answerAll 6000 0x200000 ⟨emptyHeap fun _ => 0, []⟩ largeThenFree = some client ∧
        client.live = [] ∧
        ∃ result, malloc 6000 0x200000 65000 client.heap = some result ∧ result.1 = 0 := by
  refine ⟨large_then_free_allowed, by decide, _, rfl, by decide, _, rfl, by decide⟩

theorem malloc_after_release_sample :
    ∃ client, answerAll 6000 0x200000 ⟨emptyHeap fun _ => 0, []⟩ largeThenFree = some client ∧
      ∃ blocks, Reached client.heap.memory client.heap.freeList blocks ∧
        (client.live = [] → ∀ n, need n ≤ heapSize →
          ∃ result, malloc 6000 0x200000 n client.heap = some result ∧
            (result.1 ≠ 0 ↔
              (∃ block ∈ blocks, need n ≤ blockSize client.heap.memory block) ∨
                client.heap.heapUsed + need n ≤ heapSize)) :=
  malloc_after_release_iff 0x200000 6000 (fun _ => 0) largeThenFree (by decide) (by decide)
    (by decide) large_then_free_allowed

end LumenOS.HeapRequests
