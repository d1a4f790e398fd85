import LumenOS.HeapRequests
import LumenOS.StepRuns
import Mathlib.Logic.Function.Basic

/-!
# The allocator as a plan

What clients see of the heap over a whole run: the pointers they are given,
the bytes they stored and the messages on the serial line. A plan says the same
without memory: cells laid out first fit, a table of what was stored since a
block was given out, and the answers so far. The headers, the flags and the
list of `stdlib.c` follow the plan through every run of allowed requests.
-/

namespace LumenOS.HeapPlacement

open LumenOS.ByteMemory LumenOS.FirstFit LumenOS.HeapModel LumenOS.HeapHistory
open LumenOS.HeapRequests LumenOS.StepRuns

set_option autoImplicit false

structure Session where
  client : Client
  returned : List Nat

def answers (fuel base : Nat) (heap : Heap) : Request → List Nat
  | .malloc size => ((malloc fuel base size heap).map Prod.fst).toList
  | _ => []

def serve (fuel base : Nat) (session : Session) (request : Request) : Option Session :=
  (answer fuel base session.client request).map fun client =>
    ⟨client, session.returned ++ answers fuel base session.client.heap request⟩

def serveAll (fuel base : Nat) (session : Session) : List Request → Option Session
  | [] => some session
  | request :: requests => (serve fuel base session request).bind fun next =>
      serveAll fuel base next requests

/-- The cells, what was stored where since it was given out, and the answers. -/
structure Plan where
  cells : List Cell
  contents : Nat → Option Byte
  returned : List Nat

def emptyPlan : Plan := ⟨[], fun _ => none, []⟩

def Plan.give (plan : Plan) (place size : Nat) (cells : List Cell) : Plan where
  cells := cells
  contents := fun address =>
    if place + headerSize ≤ address ∧ address < place + headerSize + size then none
    else plan.contents address
  returned := plan.returned ++ [place + headerSize]

def planStep (base : Nat) (plan : Plan) : Request → Plan
  | .malloc size =>
      match fit (need size) base plan.cells with
      | some place => plan.give place size (assign place (some size) base plan.cells)
      | none =>
          if total plan.cells + need size ≤ heapSize then
            plan.give (base + total plan.cells) size (plan.cells ++ [⟨need size, some size⟩])
          else { plan with returned := plan.returned ++ [0] }
  | .free ptr =>
      if ptr = 0 then plan
      else { plan with cells := assign (ptr - headerSize) none base plan.cells }
  | .store ptr offset value =>
      { plan with contents := Function.update plan.contents (ptr + offset) (some value) }

/-- One message for every null pointer. -/
def refusals (returned : List Nat) : List String :=
  (returned.filter fun ptr => ptr = 0).map fun _ => outOfMemory

structure Follows (base : Nat) (session : Session) (plan : Plan) : Prop where
  arena : Arena base session.client plan.cells
  returned : session.returned = plan.returned
  contents : ∀ ptr size, (ptr, size) ∈ session.client.live → ∀ i, i < size → ∀ value,
    plan.contents (ptr + i) = some value →
      readByte session.client.heap.memory (ptr + i) = value
  serial : session.client.heap.serial = refusals plan.returned

theorem refusals_served (returned : List Nat) {ptr : Nat} (served : ptr ≠ 0) :
    refusals (returned ++ [ptr]) = refusals returned := by
  unfold refusals
  rw [List.filter_append, List.filter_singleton, decide_eq_false served]
  simp

theorem refusals_null (returned : List Nat) :
    refusals (returned ++ [0]) = refusals returned ++ [outOfMemory] := by
  unfold refusals
  rw [List.filter_append, List.map_append]
  rfl

section Steps

variable {base fuel : Nat} (positive : 0 < base) (fits : base + heapSize < 2 ^ 32)
  (enough : enoughFuel ≤ fuel) {session : Session} {plan : Plan}

include fits in
theorem live_inside {client : Client} {cells : List Cell} (arena : Arena base client cells)
    {ptr size i : Nat} (held : (ptr, size) ∈ client.live) (inside : i < size) :
    ptr + i < payloadEnd client.heap.memory ptr ∧ ptr + i < 2 ^ 32 := by
  obtain ⟨home, owner, member, equal, large, ends⟩ := live_cell arena held
  have bounds := placed_bounds member
  have bounded := arena.bounded
  omega

include fits in
theorem store_follows (follows : Follows base session plan) {ptr offset : Nat} {value : Byte}
    (allowed : Allowed session.client (.store ptr offset value)) :
    ∃ next, serve fuel base session (.store ptr offset value) = some next ∧
      Follows base next (planStep base plan (.store ptr offset value)) := by
  obtain ⟨size, held, inside⟩ := allowed
  refine ⟨_, rfl, ?_⟩
  have place := (live_inside fits follows.arena held inside).2
  constructor
  · exact arena_store fits follows.arena value held inside
  · exact (List.append_nil _).trans follows.returned
  · intro other request live i bound known stored
    have word := (live_inside fits follows.arena live bound).2
    change Function.update plan.contents (ptr + offset) (some value) (other + i) = some known
      at stored
    change readByte (writeByte session.client.heap.memory (ptr + offset) value) (other + i) = known
    by_cases same : other + i = ptr + offset
    · rw [same, Function.update_self] at stored
      rw [same, read_write_same]
      exact Option.some.inj stored
    · rw [Function.update_of_ne same] at stored
      rw [read_write_other]
      · exact follows.contents other request live i bound known stored
      · unfold u32
        omega
  · exact follows.serial

theorem refuse_follows (follows : Follows base session plan) {size : Nat}
    (called : malloc fuel base size session.client.heap = some (0, { session.client.heap with
      serial := session.client.heap.serial ++ [outOfMemory] })) :
    ∃ next, serve fuel base session (.malloc size) = some next ∧
      Follows base next { plan with returned := plan.returned ++ [0] } := by
  have arena := follows.arena
  refine ⟨⟨⟨{ session.client.heap with
    serial := session.client.heap.serial ++ [outOfMemory] }, session.client.live⟩,
    session.returned ++ [0]⟩, ?_, ?_, ?_, follows.contents, ?_⟩
  · unfold serve answers answer
    simp only [called, Option.map_some, if_true, Option.toList_some]
  · exact ⟨arena.held, arena.sound, arena.aligned, arena.used, arena.bounded, arena.live⟩
  · exact congrArg (· ++ [0]) follows.returned
  · change session.client.heap.serial ++ [outOfMemory] = refusals (plan.returned ++ [0])
    rw [follows.serial, refusals_null]

include positive fits enough

theorem give_follows (follows : Follows base session plan) {size place : Nat} {after : Heap}
    {cells : List Cell} (small : size ≤ heapSize)
    (called : malloc fuel base size session.client.heap = some (place + headerSize, after))
    (serial : after.serial = session.client.heap.serial)
    (arena : Arena base ⟨after, (place + headerSize, size) :: session.client.live⟩ cells) :
    ∃ next, serve fuel base session (.malloc size) = some next ∧
      Follows base next (plan.give place size cells) := by
  have undisturbed := arena_undisturbed positive fits follows.arena enough
  have served : place + headerSize ≠ 0 := by
    unfold headerSize
    omega
  refine ⟨⟨⟨after, (place + headerSize, size) :: session.client.live⟩,
    session.returned ++ [place + headerSize]⟩, ?_, arena, ?_, ?_, ?_⟩
  · unfold serve answers answer
    simp only [called, Option.map_some, if_neg served, Option.toList_some]
  · exact congrArg (· ++ [place + headerSize]) follows.returned
  · intro ptr request held i inside value known
    change (if place + headerSize ≤ ptr + i ∧ ptr + i < place + headerSize + size then none
      else plan.contents (ptr + i)) = some value at known
    split_ifs at known with given
    rcases List.mem_cons.mp held with fresh | earlier
    · obtain ⟨rfl, rfl⟩ := Prod.mk.inj fresh
      exact absurd ⟨Nat.le_add_right _ _, Nat.add_lt_add_left inside _⟩ given
    · have below := (live_inside fits follows.arena earlier inside).1
      have kept := undisturbed.byMalloc size _ small called ptr request earlier (ptr + i)
        (Nat.le_add_right _ _) below
      exact kept.trans (follows.contents ptr request earlier i inside value known)
  · change after.serial = refusals (plan.returned ++ [place + headerSize])
    rw [serial, follows.serial, refusals_served _ served]

theorem malloc_follows (follows : Follows base session plan) {size : Nat}
    (small : size ≤ heapSize) :
    ∃ next, serve fuel base session (.malloc size) = some next ∧
      Follows base next (planStep base plan (.malloc size)) := by
  have arena := follows.arena
  have bounds := need_bounds size
  have used := arena.used
  have word : need size < 2 ^ 32 := by
    unfold heapSize at small
    unfold headerSize at bounds
    omega
  have asked : u32 (align4 size + headerSize) = need size :=
    (block_size_need size (by unfold heapSize at small; omega)).trans (Nat.mod_eq_of_lt word)
  simp only [planStep]
  cases found : fit (need size) base plan.cells with
  | some place =>
      rw [← asked] at found
      obtain ⟨cell, member, isFree, large⟩ := fit_placed found
      have called := malloc_reuses positive fits arena enough found
      have taken := arena_take fits arena member isFree
        (show headerSize + size ≤ cell.size by omega) session.client.heap.serial
      exact give_follows positive fits enough follows small called rfl taken
  | none =>
      rw [← asked] at found
      have called := malloc_appends positive arena enough found
      rw [asked] at called
      dsimp only
      by_cases room : total plan.cells + need size ≤ heapSize
      · rw [if_pos room]
        obtain ⟨pointer, appended⟩ := arena_append positive fits arena (need size) size
          (by unfold need headerSize; omega) (by omega) (by omega)
        have accepted : ¬ u32 (session.client.heap.heapUsed + need size) > heapSize := by
          unfold heapSize at room ⊢
          unfold u32
          omega
        have serial : (append base (need size) (lastHeader 0 base plan.cells)
            session.client.heap).2.serial = session.client.heap.serial := by
          unfold append
          rw [if_neg accepted]
          dsimp only
          split_ifs <;> rfl
        apply give_follows positive fits enough follows small _ serial appended
        rw [called, ← pointer]
      · rw [if_neg room]
        have refused : u32 (session.client.heap.heapUsed + need size) > heapSize := by
          have bounded := arena.bounded
          unfold heapSize at room bounded small ⊢
          unfold headerSize at bounds
          unfold u32
          omega
        rw [append_refused refused] at called
        exact refuse_follows follows called

theorem free_follows (follows : Follows base session plan) {ptr : Nat}
    (allowed : Allowed session.client (.free ptr)) :
    ∃ next, serve fuel base session (.free ptr) = some next ∧
      Follows base next (planStep base plan (.free ptr)) := by
  have undisturbed := arena_undisturbed positive fits follows.arena enough
  refine ⟨_, rfl, ?_⟩
  have answered : (answers fuel base session.client.heap (.free ptr)) = [] := rfl
  rw [answered, List.append_nil]
  have contents : ∀ other size, (other, size) ∈
      session.client.live.filter (fun entry => entry.1 ≠ ptr) → ∀ i, i < size → ∀ value,
      plan.contents (other + i) = some value →
        readByte (free ptr session.client.heap).memory (other + i) = value := by
    intro other size held i inside value known
    have live := List.mem_of_mem_filter held
    have below := (live_inside fits follows.arena live inside).1
    have kept := undisturbed.byFree ptr allowed other size live (other + i)
      (Nat.le_add_right _ _) below
    exact kept.trans (follows.contents other size live i inside value known)
  have serial : (free ptr session.client.heap).serial = session.client.heap.serial := by
    unfold free
    split_ifs <;> rfl
  by_cases null : ptr = 0
  · -- No payload starts at the null pointer, so nothing is taken from the clients.
    have kept : session.client.live.filter (fun entry => entry.1 ≠ ptr) = session.client.live := by
      apply List.filter_eq_self.mpr
      intro entry member
      have above := owned_above (follows.arena.live.mem_iff.mp member)
      exact decide_eq_true (by omega)
    have released : free ptr session.client.heap = session.client.heap := if_pos null
    rw [show planStep base plan (.free ptr) = plan from if_pos null, kept, released]
    exact follows
  · obtain ⟨size, held⟩ := allowed.resolve_left null
    rw [show planStep base plan (.free ptr) =
      { plan with cells := assign (ptr - headerSize) none base plan.cells } from if_neg null]
    exact ⟨arena_release fits follows.arena held, follows.returned, contents,
      serial.trans follows.serial⟩

theorem serve_follows (follows : Follows base session plan) (request : Request)
    (allowed : Allowed session.client request) :
    ∃ next, serve fuel base session request = some next ∧
      Follows base next (planStep base plan request) := by
  cases request with
  | malloc size => exact malloc_follows positive fits enough follows allowed
  | free ptr => exact free_follows positive fits enough follows allowed
  | store ptr offset value => exact store_follows fits follows allowed

theorem serve_all_follows (follows : Follows base session plan) (requests : List Request)
    (allowed : AllAllowed fuel base session.client requests) :
    ∃ final, serveAll fuel base session requests = some final ∧
      Follows base final (run (planStep base) plan requests) := by
  induction requests generalizing session plan with
  | nil => exact ⟨session, rfl, follows⟩
  | cons request requests ih =>
      obtain ⟨next, served, later⟩ := serve_follows positive fits enough follows request allowed.1
      obtain ⟨client, answered, equal⟩ := Option.map_eq_some_iff.mp served
      have rest : AllAllowed fuel base next.client requests := by
        rw [← equal]
        exact allowed.2 client answered
      obtain ⟨final, ended, last⟩ := ih later rest
      refine ⟨final, ?_, last⟩
      rw [serveAll, served]
      exact ended

end Steps

theorem empty_follows (base : Nat) (memory : Memory) :
    Follows base ⟨⟨emptyHeap memory, []⟩, []⟩ emptyPlan where
  arena := arena_empty base memory
  returned := rfl
  contents := fun _ _ impossible => absurd impossible List.not_mem_nil
  serial := rfl

/-- Every allowed sequence of requests is answered as planned: first fit, with
every byte in use what was last stored there, and a message for each refusal. -/
theorem heap_follows_plan (base fuel : Nat) (memory : Memory) (requests : List Request)
    (positive : 0 < base) (fits : base + heapSize < 2 ^ 32) (enough : enoughFuel ≤ fuel)
    (allowed : AllAllowed fuel base ⟨emptyHeap memory, []⟩ requests) :
    ∃ final, serveAll fuel base ⟨⟨emptyHeap memory, []⟩, []⟩ requests = some final ∧
      Follows base final (run (planStep base) emptyPlan requests) :=
  serve_all_follows positive fits enough (empty_follows base memory) requests allowed

def reuseRequests : List Request := [.malloc 10, .free 0x20000C, .malloc 5, .malloc 65536]

theorem reuse_requests_allowed :
    AllAllowed 6000 0x200000 ⟨emptyHeap fun _ => 0, []⟩ reuseRequests := by
  have small : 10 ≤ heapSize := by decide
  have smaller : 5 ≤ heapSize := by decide
  refine ⟨small, ?_⟩
  intro first given
  have live : first.live = [(0x20000C, 10)] := by
    rw [← Option.some.inj given]
    rfl
  refine ⟨Or.inr ⟨10, by rw [live]; exact List.mem_singleton.mpr rfl⟩, ?_⟩
  intro second _
  exact ⟨smaller, fun _ _ => ⟨Nat.le_refl heapSize, fun _ _ => trivial⟩⟩

theorem heap_follows_plan_reuse :
    ∃ final, serveAll 6000 0x200000 ⟨⟨emptyHeap fun _ => 0, []⟩, []⟩ reuseRequests = some final ∧
      Follows 0x200000 final (run (planStep 0x200000) emptyPlan reuseRequests) :=
  heap_follows_plan 0x200000 6000 (fun _ => 0) reuseRequests (by decide) (by decide) (by decide)
    reuse_requests_allowed

/-- The plan's answers to them. -/
example : (run (planStep 0x200000) emptyPlan reuseRequests).returned =
    [0x20000C, 0x20000C, 0] := by decide

end LumenOS.HeapPlacement
