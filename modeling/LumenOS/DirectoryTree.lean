import Mathlib.Data.List.Basic

/-!
# Directory trees and walks through them

A tree lists the entries of its root in order. A walk stands at a file or in a
directory, below the directories around it, and takes one name at a time. Two
names are kept, for the directory itself and for the one around it; the root
has an entry for neither.
-/

namespace LumenOS.DirectoryTree

set_option autoImplicit false

variable {Name Content : Type*}

inductive Tree (Name Content : Type*) where
  | nil
  | file (name : Name) (content : Content) (rest : Tree Name Content)
  | dir (name : Name) (children rest : Tree Name Content)

inductive Node (Name Content : Type*) where
  | file (content : Content)
  | dir (children : Tree Name Content)

/-- Where a walk stands: the directories around it, the nearest first. -/
inductive Spot (Name Content : Type*) where
  | file (content : Content)
  | dir (here : Tree Name Content) (above : List (Tree Name Content))

def Spot.isDir : Spot Name Content → Bool
  | .file _ => false
  | .dir _ _ => true

def Node.enter (here : Tree Name Content) (above : List (Tree Name Content)) :
    Node Name Content → Spot Name Content
  | .file content => .file content
  | .dir children => .dir children (here :: above)

variable [DecidableEq Name]

def Tree.find? (wanted : Name) : Tree Name Content → Option (Node Name Content)
  | .nil => none
  | .file name content rest => if name = wanted then some (.file content) else rest.find? wanted
  | .dir name children rest => if name = wanted then some (.dir children) else rest.find? wanted

/-- One name from a spot; `self` and `parent` are the two names kept. -/
def Spot.step (self parent : Name) : Spot Name Content → Name → Option (Spot Name Content)
  | .file _, _ => none
  | .dir here [], name => (here.find? name).map (Node.enter here [])
  | .dir here (up :: above), name =>
      if name = self then some (.dir here (up :: above))
      else if name = parent then some (.dir up above)
      else (here.find? name).map (Node.enter here (up :: above))

/-- A walk: where it stands and which names so far named an entry. -/
structure Walk (Name Content : Type*) where
  spot : Spot Name Content
  named : List Bool

def Walk.fromRoot (tree : Tree Name Content) : Walk Name Content := ⟨.dir tree [], []⟩

/-- A name without an entry leaves the walk where it is. -/
def Walk.visit (self parent : Name) (walk : Walk Name Content) (name : Name) :
    Walk Name Content where
  spot := (walk.spot.step self parent name).getD walk.spot
  named := walk.named ++ [(walk.spot.step self parent name).isSome]

section Steps

variable {self parent : Name} {here up : Tree Name Content} {above : List (Tree Name Content)}

theorem step_root (name : Name) :
    (Spot.dir here []).step self parent name = (here.find? name).map (Node.enter here []) := rfl

theorem step_self :
    (Spot.dir here (up :: above)).step self parent self = some (.dir here (up :: above)) :=
  if_pos rfl

theorem step_parent (other : parent ≠ self) :
    (Spot.dir here (up :: above)).step self parent parent = some (.dir up above) := by
  rw [Spot.step, if_neg other, if_pos rfl]

theorem step_child {name : Name} (notSelf : name ≠ self) (notParent : name ≠ parent) :
    (Spot.dir here (up :: above)).step self parent name =
      (here.find? name).map (Node.enter here (up :: above)) := by
  rw [Spot.step, if_neg notSelf, if_neg notParent]

end Steps

end LumenOS.DirectoryTree
