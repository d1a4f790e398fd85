import Mathlib.Algebra.GroupWithZero.Nat
import Mathlib.Data.List.Perm.Basic
import Mathlib.Data.List.Pairwise

/-!
# An arena of cells, allocated first fit

An arena is the list of its cells in address order. Each cell starts where the
one before it ends, begins with a header, and is free or owned by a request.
Nothing is split or merged: a request takes the first free cell that is large
enough, or a new cell is put behind the last one.
-/

namespace LumenOS.FirstFit

set_option autoImplicit false

structure Cell where
  size : Nat
  owner : Option Nat
  deriving DecidableEq

def total (cells : List Cell) : Nat := (cells.map Cell.size).sum

def placed : Nat → List Cell → List (Nat × Cell)
  | _, [] => []
  | start, cell :: cells => (start, cell) :: placed (start + cell.size) cells

def fit (size : Nat) : Nat → List Cell → Option Nat
  | _, [] => none
  | start, cell :: cells =>
      if cell.owner = none ∧ size ≤ cell.size then some start
      else fit size (start + cell.size) cells

def assign (place : Nat) (owner : Option Nat) : Nat → List Cell → List Cell
  | _, [] => []
  | start, cell :: cells =>
      if start = place then { cell with owner := owner } :: cells
      else cell :: assign place owner (start + cell.size) cells

section Header

variable (header : Nat)

def owned (start : Nat) (cells : List Cell) : List (Nat × Nat) :=
  (placed start cells).filterMap fun at_cell =>
    at_cell.2.owner.map fun request => (at_cell.1 + header, request)

/-- A cell holds its header and, when it is owned, what its owner asked for. -/
def Sound (cell : Cell) : Prop :=
  header ≤ cell.size ∧ ∀ request, cell.owner = some request → header + request ≤ cell.size

end Header

@[simp] theorem total_nil : total [] = 0 := rfl

@[simp] theorem total_cons (cell : Cell) (cells : List Cell) :
    total (cell :: cells) = cell.size + total cells := rfl

@[simp] theorem total_append (first second : List Cell) :
    total (first ++ second) = total first + total second := by
  unfold total
  rw [List.map_append, List.sum_append]

theorem placed_append (start : Nat) (first second : List Cell) :
    placed start (first ++ second) = placed start first ++ placed (start + total first) second := by
  induction first generalizing start with
  | nil => rfl
  | cons cell first ih =>
      simp only [List.cons_append, placed, total_cons]
      rw [ih, Nat.add_assoc]

theorem placed_bounds {start : Nat} {cells : List Cell} {place : Nat} {cell : Cell}
    (member : (place, cell) ∈ placed start cells) :
    start ≤ place ∧ place + cell.size ≤ start + total cells := by
  induction cells generalizing start with
  | nil => cases member
  | cons first cells ih =>
      simp only [placed, List.mem_cons, Prod.mk.injEq] at member
      rw [total_cons]
      rcases member with ⟨rfl, rfl⟩ | member
      · omega
      · have later := ih member
        omega

theorem placed_cell_mem {start : Nat} {cells : List Cell} {place : Nat} {cell : Cell}
    (member : (place, cell) ∈ placed start cells) : cell ∈ cells := by
  induction cells generalizing start with
  | nil => cases member
  | cons first cells ih =>
      simp only [placed, List.mem_cons, Prod.mk.injEq] at member
      rcases member with ⟨_, rfl⟩ | member
      · exact List.mem_cons_self
      · exact List.mem_cons_of_mem first (ih member)

theorem fit_placed {size start : Nat} {cells : List Cell} {place : Nat}
    (found : fit size start cells = some place) :
    ∃ cell, (place, cell) ∈ placed start cells ∧ cell.owner = none ∧ size ≤ cell.size := by
  induction cells generalizing start with
  | nil => cases found
  | cons first cells ih =>
      unfold fit at found
      by_cases fits : first.owner = none ∧ size ≤ first.size
      · rw [if_pos fits] at found
        obtain rfl := Option.some.inj found
        exact ⟨first, List.mem_cons_self, fits.1, fits.2⟩
      · rw [if_neg fits] at found
        obtain ⟨cell, member, free⟩ := ih found
        exact ⟨cell, List.mem_cons_of_mem (start, first) member, free⟩

theorem mem_placed {cells : List Cell} {cell : Cell} (start : Nat) (member : cell ∈ cells) :
    ∃ place, (place, cell) ∈ placed start cells := by
  induction cells generalizing start with
  | nil => cases member
  | cons first cells ih =>
      rcases List.mem_cons.mp member with rfl | later
      · exact ⟨start, List.mem_cons_self⟩
      · obtain ⟨place, inside⟩ := ih (start + first.size) later
        exact ⟨place, List.mem_cons_of_mem (start, first) inside⟩

theorem fit_none_iff (size start : Nat) (cells : List Cell) :
    fit size start cells = none ↔ ∀ cell ∈ cells, cell.owner = none → cell.size < size := by
  induction cells generalizing start with
  | nil => simp [fit]
  | cons first cells ih =>
      unfold fit
      by_cases fits : first.owner = none ∧ size ≤ first.size
      · rw [if_pos fits]
        constructor
        · intro impossible
          cases impossible
        · intro small
          have short := small first List.mem_cons_self fits.1
          omega
      · rw [if_neg fits, ih, List.forall_mem_cons]
        constructor
        · intro rest
          refine ⟨fun free => ?_, rest⟩
          by_contra large
          exact fits ⟨free, by omega⟩
        · exact fun both => both.2

@[simp] theorem assign_total (place : Nat) (owner : Option Nat) (start : Nat)
    (cells : List Cell) : total (assign place owner start cells) = total cells := by
  induction cells generalizing start with
  | nil => rfl
  | cons cell cells ih =>
      unfold assign
      by_cases here : start = place
      · rw [if_pos here]
        rfl
      · rw [if_neg here, total_cons, total_cons, ih]

/-- Every cell of the result is an old one, or the one assigned. -/
theorem assign_cells {place : Nat} {owner : Option Nat} {start : Nat} {cells : List Cell}
    {cell : Cell} (member : cell ∈ assign place owner start cells) :
    cell ∈ cells ∨
      ∃ old, (place, old) ∈ placed start cells ∧ cell = { old with owner := owner } := by
  induction cells generalizing start with
  | nil => cases member
  | cons first cells ih =>
      unfold assign at member
      by_cases here : start = place
      · rw [if_pos here] at member
        rcases List.mem_cons.mp member with rfl | member
        · exact Or.inr ⟨first, by rw [← here]; exact List.mem_cons_self, rfl⟩
        · exact Or.inl (List.mem_cons_of_mem first member)
      · rw [if_neg here] at member
        rcases List.mem_cons.mp member with rfl | member
        · exact Or.inl List.mem_cons_self
        · rcases ih member with kept | ⟨old, oldMember, equal⟩
          · exact Or.inl (List.mem_cons_of_mem first kept)
          · exact Or.inr ⟨old, List.mem_cons_of_mem (start, first) oldMember, equal⟩

section Owned

variable {header : Nat}

theorem owned_cons (start : Nat) (cell : Cell) (cells : List Cell) :
    owned header start (cell :: cells) =
      (cell.owner.map fun request => (start + header, request)).toList ++
        owned header (start + cell.size) cells := by
  unfold owned
  cases free : cell.owner with
  | none => simp [placed, free]
  | some request => simp [placed, free]

theorem owned_append (start : Nat) (first second : List Cell) :
    owned header start (first ++ second) =
      owned header start first ++ owned header (start + total first) second := by
  unfold owned
  rw [placed_append, List.filterMap_append]

theorem mem_owned {start : Nat} {cells : List Cell} {pointer request : Nat} :
    (pointer, request) ∈ owned header start cells ↔
      ∃ place cell, (place, cell) ∈ placed start cells ∧ cell.owner = some request ∧
        pointer = place + header := by
  unfold owned
  simp only [List.mem_filterMap, Option.map_eq_some_iff, Prod.mk.injEq, Prod.exists]
  constructor
  · intro found
    obtain ⟨place, cell, member, value, owner, pointerEq, valueEq⟩ := found
    exact ⟨place, cell, member, by rw [owner, valueEq], pointerEq.symm⟩
  · intro found
    obtain ⟨place, cell, member, owner, pointerEq⟩ := found
    exact ⟨place, cell, member, request, owner, pointerEq.symm, rfl⟩

theorem owned_above {start : Nat} {cells : List Cell} {pointer request : Nat}
    (member : (pointer, request) ∈ owned header start cells) : start + header ≤ pointer := by
  obtain ⟨place, cell, inside, _, equal⟩ := mem_owned.mp member
  have bounds := placed_bounds inside
  omega

theorem owned_release (place start : Nat) (cells : List Cell)
    (sound : ∀ cell ∈ cells, 0 < cell.size) :
    owned header start (assign place none start cells) =
      (owned header start cells).filter fun entry => entry.1 ≠ place + header := by
  induction cells generalizing start with
  | nil => rfl
  | cons cell cells ih =>
      have positive := sound cell List.mem_cons_self
      have rest := ih (start + cell.size) fun other member =>
        sound other (List.mem_cons_of_mem cell member)
      unfold assign
      rw [owned_cons start cell cells, List.filter_append]
      by_cases here : start = place
      · have kept : (owned header (start + cell.size) cells).filter
            (fun entry => entry.1 ≠ place + header) = owned header (start + cell.size) cells := by
          apply List.filter_eq_self.mpr
          intro entry member
          have above := owned_above member
          have different : entry.1 ≠ place + header := by omega
          exact decide_eq_true different
        rw [if_pos here, owned_cons, kept, here]
        cases cell.owner <;> simp
      · have same : ((cell.owner.map fun request => (start + header, request)).toList).filter
            (fun entry => entry.1 ≠ place + header) =
            (cell.owner.map fun request => (start + header, request)).toList := by
          apply List.filter_eq_self.mpr
          intro entry member
          rw [Option.mem_toList] at member
          obtain ⟨request, _, equal⟩ := Option.map_eq_some_iff.mp member
          have different : entry.1 ≠ place + header := by
            rw [← equal]
            omega
          exact decide_eq_true different
        rw [if_neg here, owned_cons, rest, same]

theorem owned_take (header place request start : Nat) (cells : List Cell) (cell : Cell)
    (member : (place, cell) ∈ placed start cells) (free : cell.owner = none)
    (sound : ∀ other ∈ cells, 0 < other.size) :
    (owned header start (assign place (some request) start cells)).Perm
      ((place + header, request) :: owned header start cells) := by
  induction cells generalizing start with
  | nil => cases member
  | cons first cells ih =>
      have positive := sound first List.mem_cons_self
      unfold assign
      by_cases here : start = place
      · have same : cell = first := by
          rcases List.mem_cons.mp member with equal | later
          · exact (Prod.mk.inj equal).2
          · have above := placed_bounds later
            omega
        rw [if_pos here, owned_cons, owned_cons, ← same, free, here]
        exact List.Perm.refl _
      · have later : (place, cell) ∈ placed (start + first.size) cells := by
          rcases List.mem_cons.mp member with equal | later
          · exact absurd (Prod.mk.inj equal).1.symm here
          · exact later
        have rest := ih (start + first.size) later fun other otherMember =>
          sound other (List.mem_cons_of_mem first otherMember)
        rw [if_neg here, owned_cons, owned_cons]
        exact (rest.append_left _).trans List.perm_middle

theorem owned_sorted (header : Nat) (extent : Nat → Nat) (start : Nat) (cells : List Cell)
    (measured : ∀ place cell, (place, cell) ∈ placed start cells → extent place = cell.size) :
    (owned header start cells).Pairwise fun left right =>
      left.1 - header + extent (left.1 - header) ≤ right.1 - header := by
  induction cells generalizing start with
  | nil => exact List.Pairwise.nil
  | cons cell cells ih =>
      have rest := ih (start + cell.size) fun place other member =>
        measured place other (List.mem_cons_of_mem (start, cell) member)
      rw [owned_cons]
      cases cell.owner with
      | none => exact rest
      | some request =>
          refine List.Pairwise.cons ?_ rest
          intro entry member
          have above := owned_above member
          have own := measured start cell List.mem_cons_self
          change start + header - header + extent (start + header - header) ≤ entry.1 - header
          rw [Nat.add_sub_cancel, own]
          omega

end Owned

theorem placed_apart {start : Nat} {cells : List Cell} {left right : Nat × Cell}
    (leftMember : left ∈ placed start cells) (rightMember : right ∈ placed start cells) :
    left = right ∨ left.1 + left.2.size ≤ right.1 ∨ right.1 + right.2.size ≤ left.1 := by
  induction cells generalizing start with
  | nil => cases leftMember
  | cons cell cells ih =>
      rcases List.mem_cons.mp leftMember with rfl | leftLater
      · rcases List.mem_cons.mp rightMember with rfl | rightLater
        · exact Or.inl rfl
        · have above := placed_bounds rightLater
          exact Or.inr (Or.inl above.1)
      · rcases List.mem_cons.mp rightMember with rfl | rightLater
        · have above := placed_bounds leftLater
          exact Or.inr (Or.inr above.1)
        · exact ih leftLater rightLater

end LumenOS.FirstFit
