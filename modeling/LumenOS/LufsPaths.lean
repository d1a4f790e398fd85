import LumenOS.LufsLayout

/-!
# Paths as keys

Paths are dictionary keys in `makefs`. For names without slashes a path determines the
directory it leads to, so the entries with a given parent are the items of one
directory, and no two directories or files share a key.
-/

namespace LumenOS.LufsPaths

open LumenOS.ByteMemory LumenOS.FileTree LumenOS.LufsModel LumenOS.LufsLayout

set_option autoImplicit false

section Paths

def AllNamed (place : List Text) : Prop := ∀ name ∈ place, OsName name

/-- The key of the directory that is reached by names from the root. -/
def pathText (place : List Text) : Text := place.foldl childPath []

theorem path_text_snoc (place : List Text) (name : Text) :
    pathText (place ++ [name]) = childPath (pathText place) name := by
  unfold pathText
  rw [List.foldl_append]
  rfl

theorem child_path_join (path name : Text) (good : OsName name) :
    childPath path name = osJoin path name := by
  unfold childPath
  by_cases empty : path = []
  · rw [if_neg (fun nonempty => nonempty empty), empty]
    unfold osJoin
    rw [if_neg good.head, if_pos (Or.inl rfl)]
    rfl
  · rw [if_pos empty]

theorem resolve_path_text (place : List Text) (good : AllNamed place) :
    resolve [] (pathText place) = place := by
  induction place using List.reverseRecOn with
  | nil => rfl
  | append_singleton place name ih =>
      have last : OsName name := good name (by simp)
      have before : AllNamed place := fun other member => good other (by simp [member])
      rw [path_text_snoc, child_path_join _ _ last, resolve_join [] _ _ last, ih before]

theorem path_text_injective {left right : List Text} (leftGood : AllNamed left)
    (rightGood : AllNamed right) (same : pathText left = pathText right) : left = right := by
  rw [← resolve_path_text left leftGood, same, resolve_path_text right rightGood]

theorem AllNamed.snoc {place : List Text} {name : Text} (good : AllNamed place)
    (last : OsName name) : AllNamed (place ++ [name]) := by
  intro other member
  rcases List.mem_append.mp member with before | here
  · exact good other before
  · rw [List.mem_singleton.mp here]
    exact last

end Paths

section Directories

def items (relPath : Text) : Listing → List Entry
  | .nil => []
  | .file name content rest => ⟨name, true, relPath, content⟩ :: items relPath rest
  | .dir name _ rest => ⟨name, false, relPath, []⟩ :: items relPath rest

def dirs (here : List Text) : Listing → List (List Text × Listing)
  | .nil => []
  | .file _ _ rest => dirs here rest
  | .dir name children rest =>
      (here ++ [name], children) :: dirs (here ++ [name]) children ++ dirs here rest

@[simp] theorem items_length (relPath : Text) (listing : Listing) :
    (items relPath listing).length = count listing := by
  induction listing with
  | nil => rfl
  | file name content rest ih => simp only [items, count, List.length_cons, ih]
  | dir name children rest _ ih => simp only [items, count, List.length_cons, ih]

/-- A path that goes through one of a directory's names. -/
def Through (here : List Text) (names : List Text) (place : List Text) : Prop :=
  ∃ name more, place = here ++ name :: more ∧ name ∈ names

theorem not_through_here (here names : List Text) : ¬ Through here names here := by
  intro through
  obtain ⟨name, more, same, _⟩ := through
  have lengths := congrArg List.length same
  rw [List.length_append, List.length_cons] at lengths
  omega

theorem Through.later {here names place : List Text} (name : Text)
    (through : Through here names place) : Through here (name :: names) place := by
  obtain ⟨next, more, same, member⟩ := through
  exact ⟨next, more, same, List.mem_cons_of_mem name member⟩

theorem Through.below {here names place : List Text} {name : Text} {inner : List Text}
    (member : name ∈ names)
    (through : place = here ++ [name] ∨ Through (here ++ [name]) inner place) :
    Through here names place := by
  rcases through with same | deeper
  · exact ⟨name, [], same, member⟩
  · obtain ⟨next, more, same, _⟩ := deeper
    refine ⟨name, next :: more, ?_, member⟩
    rw [same, List.append_assoc]
    rfl

theorem Through.name_mem {here names place : List Text} {name : Text}
    (one : Through here [name] place) (other : Through here names place) : name ∈ names := by
  obtain ⟨first, more, same, member⟩ := one
  obtain ⟨second, others, otherSame, otherMember⟩ := other
  rw [same] at otherSame
  have tails := List.append_cancel_left otherSame
  rw [← (List.cons.inj tails).1, List.mem_singleton.mp member] at otherMember
  exact otherMember

theorem through_path_ne {here names place : List Text} (good : AllNamed here)
    (placeGood : AllNamed place) (through : Through here names place) :
    pathText here ≠ pathText place := by
  intro same
  rw [← path_text_injective good placeGood same] at through
  exact not_through_here here names through

theorem dirs_through {here : List Text} {listing : Listing} (good : AllNamed here)
    (tree : OsTree listing) {found : List Text × Listing} (member : found ∈ dirs here listing) :
    Through here listing.names found.1 ∧ AllNamed found.1 := by
  induction listing generalizing here with
  | nil => exact absurd member List.not_mem_nil
  | file name content rest ih =>
      obtain ⟨through, allGood⟩ := ih good tree.2.2 member
      exact ⟨through.later name, allGood⟩
  | dir name children rest ihChildren ih =>
      obtain ⟨named, _, inner, later⟩ := tree
      have belowGood := good.snoc named
      have first : name ∈ (Listing.dir name children rest).names := List.mem_cons_self
      rcases List.mem_append.mp member with front | behind
      · rcases List.mem_cons.mp front with rfl | deeper
        · exact ⟨⟨name, [], rfl, first⟩, belowGood⟩
        · obtain ⟨through, allGood⟩ := ihChildren belowGood inner deeper
          exact ⟨Through.below first (Or.inr through), allGood⟩
      · obtain ⟨through, allGood⟩ := ih good later behind
        exact ⟨through.later name, allGood⟩

theorem entries_parent {here : List Text} {listing : Listing} (good : AllNamed here)
    (tree : OsTree listing) {entry : Entry}
    (member : entry ∈ entriesBelow (pathText here) listing) :
    ∃ place, entry.parent = pathText place ∧ AllNamed place ∧
      (place = here ∨ Through here listing.names place) := by
  induction listing generalizing here with
  | nil => exact absurd member List.not_mem_nil
  | file name content rest ih =>
      rcases List.mem_cons.mp member with rfl | later
      · exact ⟨here, rfl, good, Or.inl rfl⟩
      · obtain ⟨place, parent, allGood, where_⟩ := ih good tree.2.2 later
        exact ⟨place, parent, allGood, where_.imp id (Through.later name)⟩
  | dir name children rest ihChildren ih =>
      obtain ⟨named, _, inner, later⟩ := tree
      rcases List.mem_append.mp member with front | behind
      · rcases List.mem_cons.mp front with rfl | deeper
        · exact ⟨here, rfl, good, Or.inl rfl⟩
        · rw [← path_text_snoc] at deeper
          obtain ⟨place, parent, allGood, where_⟩ := ihChildren (good.snoc named) inner deeper
          exact ⟨place, parent, allGood, Or.inr (Through.below List.mem_cons_self where_)⟩
      · obtain ⟨place, parent, allGood, where_⟩ := ih good later behind
        exact ⟨place, parent, allGood, where_.imp id (Through.later name)⟩

theorem dir_tree_append (first second : List Entry) (path : Text) :
    dirTree (first ++ second) path = dirTree first path ++ dirTree second path := by
  unfold dirTree
  rw [List.filter_append]

theorem dir_tree_cons_same (entry : Entry) (entries : List Entry) (path : Text)
    (same : entry.parent = path) :
    dirTree (entry :: entries) path = entry :: dirTree entries path :=
  List.filter_cons_of_pos (decide_eq_true same)

theorem dir_tree_cons_other (entry : Entry) (entries : List Entry) (path : Text)
    (other : entry.parent ≠ path) : dirTree (entry :: entries) path = dirTree entries path :=
  List.filter_cons_of_neg (by simpa using other)

theorem dir_tree_elsewhere {here target : List Text} {listing : Listing} (good : AllNamed here)
    (tree : OsTree listing) (targetGood : AllNamed target) (notHere : target ≠ here)
    (notBelow : ¬ Through here listing.names target) :
    dirTree (entriesBelow (pathText here) listing) (pathText target) = [] := by
  apply List.filter_eq_nil_iff.mpr
  intro entry member
  obtain ⟨place, parent, allGood, where_⟩ := entries_parent good tree member
  have different : entry.parent ≠ pathText target := by
    intro same
    have places := path_text_injective allGood targetGood (parent.symm.trans same)
    rcases where_ with equal | through
    · exact notHere (places.symm.trans equal)
    · rw [places] at through
      exact notBelow through
  simpa using different

theorem dir_tree_here {here : List Text} {listing : Listing} (good : AllNamed here)
    (tree : OsTree listing) :
    dirTree (entriesBelow (pathText here) listing) (pathText here) =
      items (pathText here) listing := by
  induction listing with
  | nil => rfl
  | file name content rest ih =>
      unfold entriesBelow items
      rw [dir_tree_cons_same _ _ _ rfl, ih tree.2.2]
  | dir name children rest _ ih =>
      obtain ⟨named, _, inner, later⟩ := tree
      have longer : here ≠ here ++ [name] := by simp
      have notInside : ¬ Through (here ++ [name]) children.names here := by
        intro through
        exact not_through_here here [name]
          (Through.below (List.mem_singleton.mpr rfl) (Or.inr through))
      have elsewhere := dir_tree_elsewhere (good.snoc named) inner good longer notInside
      unfold entriesBelow items
      rw [dir_tree_append, dir_tree_cons_same _ _ _ rfl, ← path_text_snoc, elsewhere, ih later]
      rfl

theorem dir_tree_below {here : List Text} {listing : Listing} (good : AllNamed here)
    (tree : OsTree listing) {found : List Text × Listing} (member : found ∈ dirs here listing) :
    dirTree (entriesBelow (pathText here) listing) (pathText found.1) =
      items (pathText found.1) found.2 := by
  induction listing generalizing here with
  | nil => exact absurd member List.not_mem_nil
  | file name content rest ih =>
      obtain ⟨through, foundGood⟩ := dirs_through good tree.2.2 member
      have apart := through_path_ne good foundGood through
      unfold entriesBelow
      rw [dir_tree_cons_other _ _ _ apart]
      exact ih good tree.2.2 member
  | dir name children rest ihChildren ih =>
      obtain ⟨through, foundGood⟩ := dirs_through good tree member
      obtain ⟨named, ascending, inner, later⟩ := tree
      have belowGood := good.snoc named
      have apart := through_path_ne good foundGood through
      have notHere : found.1 ≠ here := by
        intro same
        rw [same] at through
        exact not_through_here here _ through
      unfold entriesBelow
      rw [dir_tree_append, dir_tree_cons_other _ _ _ apart, ← path_text_snoc]
      rcases List.mem_append.mp member with front | behind
      · have inName : found.1 = here ++ [name] ∨
            Through (here ++ [name]) children.names found.1 := by
          rcases List.mem_cons.mp front with rfl | deeper
          · exact Or.inl rfl
          · exact Or.inr (dirs_through belowGood inner deeper).1
        have notRest : ¬ Through here rest.names found.1 := by
          intro other
          have one := Through.below (List.mem_singleton.mpr rfl) inName
          exact OsTree.distinct ascending (one.name_mem other)
        rw [dir_tree_elsewhere good later foundGood notHere notRest, List.append_nil]
        rcases List.mem_cons.mp front with rfl | deeper
        · exact dir_tree_here belowGood inner
        · exact ihChildren belowGood inner deeper
      · have inRest := (dirs_through good later behind).1
        have notName : ¬ (found.1 = here ++ [name] ∨
            Through (here ++ [name]) children.names found.1) := by
          intro inName
          have one := Through.below (List.mem_singleton.mpr rfl) inName
          exact OsTree.distinct ascending (one.name_mem inRest)
        rw [dir_tree_elsewhere belowGood inner foundGood (fun same => notName (Or.inl same))
          (fun deeper => notName (Or.inr deeper)), List.nil_append]
        exact ih good later behind

end Directories

section Keys

def dirPaths (here : List Text) (listing : Listing) : List Text :=
  (dirs here listing).map fun found => pathText found.1

def fileKeys (here : List Text) : Listing → List (Text × Text)
  | .nil => []
  | .file name _ rest => (pathText here, name) :: fileKeys here rest
  | .dir name children rest => fileKeys (here ++ [name]) children ++ fileKeys here rest

theorem dir_paths_dir (here : List Text) (name : Text) (children rest : Listing) :
    dirPaths here (.dir name children rest) =
      pathText (here ++ [name]) :: dirPaths (here ++ [name]) children ++ dirPaths here rest := by
  unfold dirPaths
  rw [dirs, List.map_append, List.map_cons]

theorem dir_path_through {here : List Text} {listing : Listing} (good : AllNamed here)
    (tree : OsTree listing) {path : Text} (member : path ∈ dirPaths here listing) :
    ∃ place, path = pathText place ∧ AllNamed place ∧ Through here listing.names place := by
  obtain ⟨found, inside, same⟩ := List.mem_map.mp member
  obtain ⟨through, allGood⟩ := dirs_through good tree inside
  exact ⟨found.1, same.symm, allGood, through⟩

theorem dir_paths_not_here {here : List Text} {listing : Listing} (good : AllNamed here)
    (tree : OsTree listing) : pathText here ∉ dirPaths here listing := by
  intro member
  obtain ⟨place, same, allGood, through⟩ := dir_path_through good tree member
  exact through_path_ne good allGood through same

theorem dir_paths_nodup {here : List Text} {listing : Listing} (good : AllNamed here)
    (tree : OsTree listing) : (dirPaths here listing).Nodup := by
  induction listing generalizing here with
  | nil => exact List.nodup_nil
  | file name content rest ih => exact ih good tree.2.2
  | dir name children rest ihChildren ih =>
      obtain ⟨named, ascending, inner, later⟩ := tree
      have belowGood := good.snoc named
      have own : (pathText (here ++ [name]) :: dirPaths (here ++ [name]) children).Nodup :=
        List.nodup_cons.mpr ⟨dir_paths_not_here belowGood inner, ihChildren belowGood inner⟩
      rw [dir_paths_dir]
      apply List.nodup_append.mpr
      refine ⟨own, ih good later, ?_⟩
      intro path front other behind same
      have inName : ∃ place, path = pathText place ∧ AllNamed place ∧
          Through here [name] place := by
        rcases List.mem_cons.mp front with rfl | deeper
        · exact ⟨here ++ [name], rfl, belowGood, ⟨name, [], rfl, List.mem_singleton.mpr rfl⟩⟩
        · obtain ⟨place, equal, allGood, through⟩ := dir_path_through belowGood inner deeper
          exact ⟨place, equal, allGood,
            Through.below (List.mem_singleton.mpr rfl) (Or.inr through)⟩
      obtain ⟨place, equal, allGood, through⟩ := inName
      obtain ⟨next, otherEqual, nextGood, nextThrough⟩ := dir_path_through good later behind
      rw [equal, otherEqual] at same
      rw [← path_text_injective allGood nextGood same] at nextThrough
      exact OsTree.distinct ascending (through.name_mem nextThrough)

theorem file_key_place {here : List Text} {listing : Listing} (good : AllNamed here)
    (tree : OsTree listing) {key : Text × Text} (member : key ∈ fileKeys here listing) :
    ∃ place, key.1 = pathText place ∧ AllNamed place ∧
      (place = here ∧ key.2 ∈ listing.names ∨ Through here listing.names place) := by
  induction listing generalizing here with
  | nil => exact absurd member List.not_mem_nil
  | file name content rest ih =>
      rcases List.mem_cons.mp member with rfl | later
      · exact ⟨here, rfl, good, Or.inl ⟨rfl, List.mem_cons_self⟩⟩
      · obtain ⟨place, same, allGood, where_⟩ := ih good tree.2.2 later
        refine ⟨place, same, allGood, where_.imp ?_ (Through.later name)⟩
        exact And.imp_right (List.mem_cons_of_mem name)
  | dir name children rest ihChildren ih =>
      obtain ⟨named, _, inner, later⟩ := tree
      rcases List.mem_append.mp member with deeper | behind
      · obtain ⟨place, same, allGood, where_⟩ := ihChildren (good.snoc named) inner deeper
        refine ⟨place, same, allGood, Or.inr ?_⟩
        exact Through.below List.mem_cons_self (where_.imp And.left id)
      · obtain ⟨place, same, allGood, where_⟩ := ih good later behind
        refine ⟨place, same, allGood, where_.imp ?_ (Through.later name)⟩
        exact And.imp_right (List.mem_cons_of_mem name)

theorem file_keys_nodup {here : List Text} {listing : Listing} (good : AllNamed here)
    (tree : OsTree listing) : (fileKeys here listing).Nodup := by
  induction listing generalizing here with
  | nil => exact List.nodup_nil
  | file name content rest ih =>
      obtain ⟨_, ascending, later⟩ := tree
      apply List.nodup_cons.mpr
      refine ⟨?_, ih good later⟩
      intro member
      obtain ⟨place, same, allGood, where_⟩ := file_key_place good later member
      rcases where_ with ⟨_, named⟩ | through
      · exact OsTree.distinct ascending named
      · exact through_path_ne good allGood through same
  | dir name children rest ihChildren ih =>
      obtain ⟨named, ascending, inner, later⟩ := tree
      have belowGood := good.snoc named
      apply List.nodup_append.mpr
      refine ⟨ihChildren belowGood inner, ih good later, ?_⟩
      intro key front other behind same
      obtain ⟨place, equal, allGood, where_⟩ := file_key_place belowGood inner front
      obtain ⟨next, otherEqual, nextGood, otherWhere⟩ := file_key_place good later behind
      have inName : Through here [name] place :=
        Through.below (List.mem_singleton.mpr rfl) (where_.imp And.left id)
      rw [← same, equal] at otherEqual
      rw [← path_text_injective allGood nextGood otherEqual] at otherWhere
      rcases otherWhere with ⟨isHere, _⟩ | through
      · rw [isHere] at inName
        exact not_through_here here _ inName
      · exact OsTree.distinct ascending (inName.name_mem through)

end Keys

end LumenOS.LufsPaths
