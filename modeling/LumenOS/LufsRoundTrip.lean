import LumenOS.LufsReader
import LumenOS.LufsWriter

/-!
# The image comes back as the tree

What the two traversals do to the rows of the layout is what a recursion over
the listing does: printing gives one line an entry, and extracting puts each
entry where its path leads. Together with the writer's layout this is the round
trip of `mkfs.py` and `rdfs.py`.
-/

namespace LumenOS.LufsRoundTrip

open LumenOS.ByteMemory LumenOS.FileTree LumenOS.LufsModel LumenOS.LufsLayout LumenOS.LufsPaths
open LumenOS.LufsWriter LumenOS.LufsReader

set_option autoImplicit false

section Printing

/-- One line an entry, depth first, indented by depth. -/
def treeLines (indent : Nat) : Listing → List Text
  | .nil => []
  | .file name _ rest => entryLine indent true name :: treeLines indent rest
  | .dir name children rest =>
      entryLine indent false name :: treeLines (indent + 1) children ++ treeLines indent rest

theorem print_whole : WholeTables printVisitor :=
  ⟨fun _ _ _ => rfl, fun _ _ => rfl⟩

theorem print_visits (indent tableAt dataAt : Nat) (listing : Listing) (lines : List Text) :
    visitAll printVisitor indent tableAt dataAt listing lines =
      some (lines ++ treeLines indent listing) := by
  induction listing generalizing indent tableAt dataAt lines with
  | nil => exact congrArg some (List.append_nil lines).symm
  | file name content rest ih =>
      change visitAll printVisitor indent _ _ rest (lines ++ [entryLine indent true name]) = _
      rw [ih, List.append_assoc]
      rfl
  | dir name children rest ihChildren ih =>
      change (visitAll printVisitor (indent + 1) _ _ children
        (lines ++ [entryLine indent false name])).bind (visitAll printVisitor indent _ _ rest) = _
      rw [ihChildren, Option.bind_some, ih, List.append_assoc, List.append_assoc]
      rfl

end Printing

section Extracting

/-- A file system with a listing put below `here`. -/
structure Planted (here : List Text) (listing : Listing) (fs final : FileSystem) : Prop where
  outside : ∀ place, ¬ Through here listing.names place → final place = fs place
  inside : ∀ name ∈ listing.names, ∀ more,
    final (here ++ name :: more) = listing.lookup (name :: more)

theorem not_through_other {here names : List Text} {name : Text} (absent : name ∉ names)
    (more : List Text) : ¬ Through here names (here ++ name :: more) := by
  intro through
  have one : Through here [name] (here ++ name :: more) :=
    ⟨name, more, rfl, List.mem_singleton.mpr rfl⟩
  exact absent (one.name_mem through)

theorem not_through_before {here place : List Text} (names : List Text) (within : place <+: here) :
    ¬ Through here names place := by
  intro through
  obtain ⟨name, more, same, _⟩ := through
  have lengths := within.length_le
  rw [same, List.length_append, List.length_cons] at lengths
  omega

theorem Planted.reached {here : List Text} {listing : Listing} {fs final : FileSystem}
    (planted : Planted here listing fs final) (reached : Reached fs here) : Reached final here := by
  intro place within
  rw [planted.outside place (not_through_before _ within), reached place within]

theorem place_same (fs : FileSystem) (target : List Text) (node : Node) :
    place fs target node target = some node :=
  if_pos rfl

theorem place_other (fs : FileSystem) {target other : List Text} (node : Node)
    (different : other ≠ target) : place fs target node other = fs other :=
  if_neg different

theorem place_reached {fs : FileSystem} {here : List Text} (reached : Reached fs here)
    (name : Text) (node : Node) : Reached (place fs (here ++ [name]) node) here := by
  intro other within
  have different : other ≠ here ++ [name] := by
    intro same
    have lengths := within.length_le
    rw [same, List.length_append, List.length_singleton] at lengths
    omega
  rw [place_other fs node different, reached other within]

theorem place_dir_reached {fs : FileSystem} {here : List Text} (reached : Reached fs here)
    (name : Text) : Reached (place fs (here ++ [name]) .dir) (here ++ [name]) := by
  intro other within
  rcases List.prefix_concat_iff.mp within with same | before
  · rw [same, place_same]
  · exact place_reached reached name .dir other before

theorem branch_ne {here : List Text} {name other : Text} (different : other ≠ name)
    (more : List Text) : here ++ other :: more ≠ here ++ [name] := by
  intro same
  exact different (List.cons.inj (List.append_cancel_left same)).1

theorem deeper_ne (here : List Text) (name next : Text) (more : List Text) :
    here ++ [name] ++ next :: more ≠ here ++ [name] := by
  intro same
  have lengths := congrArg List.length same
  simp only [List.length_append, List.length_cons] at lengths
  omega

theorem read_file_row {image : List Byte} (name : Text) {content : List Byte} {dataAt : Nat}
    (holds : Holds image dataAt content) :
    readFileData image (fileRow name content dataAt) = content := by
  have offset : (fileRow name content dataAt).childOffset = dataAt :=
    Nat.div_add_mod' dataAt sectorSize
  unfold readFileData
  rw [offset]
  exact holds.read

theorem extract_whole (image : List Byte) (cwd : List Text) :
    WholeTables (extractVisitor image cwd) :=
  ⟨fun _ _ behind => if_neg (Nat.ne_of_gt behind), fun _ positive => decide_eq_true positive⟩

variable {image : List Byte} {cwd : List Text} {base : Text} {fs : FileSystem} {name : Text}

theorem extract_file {content : List Byte} {dataAt : Nat} (good : OsName name)
    (given : base ≠ []) (plain : Plain base) (reached : Reached fs (resolve cwd base))
    (nothing : fs (resolve cwd base ++ [name]) = none) (holds : Holds image dataAt content) :
    (extractVisitor image cwd).visit base (fileRow name content dataAt) fs =
      some (place fs (resolve cwd base ++ [name]) (.file content)) := by
  have parent := resolve_dirname cwd base name good
  have noFile : ∀ other, other <+: resolve cwd (dirname (osJoin base name)) →
      ∀ content, fs other ≠ some (.file content) := by
    rw [parent]
    exact reached.no_file
  have made := makedirs_place (dirname_nonempty base name good given)
    (plain_dirname (plain_join good plain)) noFile
  rw [parent, with_dirs_reached reached] at made
  have bytes := read_file_row name holds
  change (makedirs fs cwd (dirname (osJoin base name))).bind _ = _
  rw [made, Option.bind_some]
  change writeFile fs (resolve cwd (osJoin base name))
    (readFileData image (fileRow name content dataAt)) = _
  rw [bytes, resolve_join cwd base name good]
  apply if_pos
  refine ⟨by simp, ?_, ?_⟩
  · rw [List.dropLast_concat]
    exact reached _ List.prefix_rfl
  · rw [nothing]
    exact fun same => Option.some_ne_none _ same.symm

theorem extract_dir (image : List Byte) (tableAt entries : Nat) (good : OsName name)
    (plain : Plain base) (reached : Reached fs (resolve cwd base))
    (nothing : fs (resolve cwd base ++ [name]) = none) :
    (extractVisitor image cwd).visit base (dirRow name tableAt entries) fs =
      some (place fs (resolve cwd base ++ [name]) .dir) := by
  have noFile : ∀ other, other <+: resolve cwd (osJoin base name) →
      ∀ content, fs other ≠ some (.file content) := by
    rw [resolve_join cwd base name good]
    intro other within content
    rcases List.prefix_concat_iff.mp within with same | before
    · rw [same, nothing]
      exact fun equal => Option.some_ne_none _ equal.symm
    · exact reached.no_file other before content
  have made := makedirs_place (join_nonempty base name good) (plain_join good plain) noFile
  rw [resolve_join cwd base name good, with_dirs_snoc reached] at made
  exact made

theorem not_through_inside {here : List Text} {name next : Text} (different : next ≠ name)
    (names more : List Text) : ¬ Through (here ++ [name]) names (here ++ next :: more) := by
  intro through
  apply not_through_other (fun member => different (List.mem_singleton.mp member)) more
  exact Through.below (List.mem_singleton.mpr rfl) (Or.inr through)

theorem names_differ {rest : Listing} {name : Text}
    (ascending : ∀ other ∈ rest.names, name < other) : ∀ next ∈ rest.names, next ≠ name := by
  intro next member same
  rw [same] at member
  exact OsTree.distinct ascending member

theorem Planted.file {here : List Text} {content : List Byte} {rest : Listing}
    {fs final : FileSystem} (ascending : ∀ other ∈ rest.names, name < other)
    (nothing : ∀ more, fs (here ++ name :: more) = none)
    (planted : Planted here rest (place fs (here ++ [name]) (.file content)) final) :
    Planted here (.file name content rest) fs final := by
  have absent := OsTree.distinct ascending
  constructor
  · intro target notThrough
    have notRest : ¬ Through here rest.names target :=
      fun through => notThrough (through.later name)
    have different : target ≠ here ++ [name] := by
      intro same
      exact notThrough ⟨name, [], same, List.mem_cons_self⟩
    rw [planted.outside target notRest, place_other fs _ different]
  · intro next member more
    by_cases same : next = name
    · rw [same, planted.outside _ (not_through_other absent more), Listing.lookup, if_pos rfl]
      by_cases last : more = []
      · rw [if_pos last, last, place_same]
      · have different : here ++ name :: more ≠ here ++ [name] :=
          fun equal => last (List.cons.inj (List.append_cancel_left equal)).2
        rw [if_neg last, place_other fs _ different]
        exact nothing more
    · rw [Listing.lookup, if_neg same]
      exact planted.inside next ((List.mem_cons.mp member).resolve_left same) more

/-- A directory in its place, its children planted below it, then the rest. -/
theorem Planted.dir {here : List Text} {children rest : Listing} {fs middle final : FileSystem}
    (ascending : ∀ other ∈ rest.names, name < other)
    (nothing : ∀ more, fs (here ++ name :: more) = none)
    (inner : Planted (here ++ [name]) children (place fs (here ++ [name]) .dir) middle)
    (planted : Planted here rest middle final) :
    Planted here (.dir name children rest) fs final := by
  have absent := OsTree.distinct ascending
  constructor
  · intro target notThrough
    have notRest : ¬ Through here rest.names target :=
      fun through => notThrough (through.later name)
    have notInner : ¬ Through (here ++ [name]) children.names target :=
      fun through => notThrough (Through.below List.mem_cons_self (Or.inr through))
    have different : target ≠ here ++ [name] := by
      intro same
      exact notThrough ⟨name, [], same, List.mem_cons_self⟩
    rw [planted.outside target notRest, inner.outside target notInner, place_other fs _ different]
  · intro next member more
    by_cases same : next = name
    · rw [same, planted.outside _ (not_through_other absent more), Listing.lookup, if_pos rfl]
      cases more with
      | nil => rw [inner.outside _ (not_through_here _ _), place_same, lookup_nil]
      | cons deeper more =>
          have split : here ++ name :: deeper :: more = here ++ [name] ++ deeper :: more := by
            rw [List.append_assoc]
            rfl
          by_cases listed : deeper ∈ children.names
          · rw [split]
            exact inner.inside deeper listed more
          · have empty := nothing (deeper :: more)
            rw [split] at empty ⊢
            rw [inner.outside _ (not_through_other listed more),
              place_other fs _ (deeper_ne here name deeper more), lookup_absent listed, empty]
    · rw [Listing.lookup, if_neg same]
      exact planted.inside next ((List.mem_cons.mp member).resolve_left same) more

/-- Nothing is at the paths of a listing, nor below them. -/
def Vacant (fs : FileSystem) (here : List Text) (names : List Text) : Prop :=
  ∀ name ∈ names, ∀ more, fs (here ++ name :: more) = none

theorem vacant_beside {here names : List Text} (vacant : Vacant fs here (name :: names))
    (differ : ∀ next ∈ names, next ≠ name) (node : Node) :
    Vacant (place fs (here ++ [name]) node) here names := by
  intro next member more
  rw [place_other fs _ (branch_ne (differ next member) more)]
  exact vacant next (List.mem_cons_of_mem name member) more

theorem vacant_below {here names : List Text} (vacant : Vacant fs here (name :: names))
    (inner : List Text) : Vacant (place fs (here ++ [name]) .dir) (here ++ [name]) inner := by
  intro next _ more
  rw [place_other fs _ (deeper_ne _ name next more), List.append_assoc]
  exact vacant name List.mem_cons_self (next :: more)

theorem vacant_planted {here names : List Text} {children : Listing} {before after : FileSystem}
    (vacant : Vacant before here names) (differ : ∀ next ∈ names, next ≠ name)
    (planted : Planted (here ++ [name]) children before after) : Vacant after here names := by
  intro next member more
  rw [planted.outside _ (not_through_inside (differ next member) _ more)]
  exact vacant next member more

theorem reached_planted {here : List Text} {children : Listing} {before after : FileSystem}
    (reached : Reached before here)
    (planted : Planted (here ++ [name]) children before after) : Reached after here := by
  intro target within
  rw [planted.outside target (not_through_before _ (within.trans (List.prefix_append _ _)))]
  exact reached target within

theorem extract_visits {listing : Listing} (tableAt : Nat) {dataAt : Nat} (tree : OsTree listing)
    (given : base ≠ []) (plain : Plain base) (reached : Reached fs (resolve cwd base))
    (vacant : Vacant fs (resolve cwd base) listing.names)
    (holds : Holds image dataAt (data listing)) :
    ∃ final, visitAll (extractVisitor image cwd) base tableAt dataAt listing fs = some final ∧
      Planted (resolve cwd base) listing fs final := by
  induction listing generalizing base fs tableAt dataAt with
  | nil => exact ⟨fs, rfl, fun _ _ => rfl, fun _ member => absurd member List.not_mem_nil⟩
  | file name content rest ih =>
      obtain ⟨good, ascending, later⟩ := tree
      have empty := vacant name List.mem_cons_self
      have visited := extract_file good given plain reached (empty []) holds.left
      obtain ⟨final, done, planted⟩ := ih tableAt later given plain (place_reached reached name _)
        (vacant_beside vacant (names_differ ascending) (.file content)) holds.right
      refine ⟨final, ?_, Planted.file ascending empty planted⟩
      rw [visitAll, visited]
      exact done
  | dir name children rest ihChildren ih =>
      obtain ⟨good, ascending, inner, later⟩ := tree
      have empty := vacant name List.mem_cons_self
      have innerPlace := resolve_join cwd base name good
      have visited := extract_dir image tableAt (count children) good plain reached (empty [])
      have reachedInner : Reached (place fs (resolve cwd base ++ [name]) .dir)
          (resolve cwd (osJoin base name)) := by
        rw [innerPlace]
        exact place_dir_reached reached name
      have vacantInner : Vacant (place fs (resolve cwd base ++ [name]) .dir)
          (resolve cwd (osJoin base name)) children.names := by
        rw [innerPlace]
        exact vacant_below vacant children.names
      obtain ⟨middle, innerDone, innerPlanted⟩ := ihChildren
        (tableAt + count children * entrySize) inner (join_nonempty base name good)
        (plain_join good plain) reachedInner vacantInner holds.left
      rw [innerPlace] at innerPlanted
      have vacantRest :=
        vacant_planted (vacant_beside vacant (names_differ ascending) .dir)
          (names_differ ascending) innerPlanted
      obtain ⟨final, done, planted⟩ := ih
        (tableAt + (count children + below children) * entrySize) later given plain
        (reached_planted (place_reached reached name .dir) innerPlanted) vacantRest holds.right
      refine ⟨final, ?_, Planted.dir ascending empty innerPlanted planted⟩
      rw [visitAll, visited, Option.bind_some]
      change (visitAll (extractVisitor image cwd) (osJoin base name) _ _ children _).bind _ = _
      rw [innerDone]
      exact done

end Extracting

section Image

variable {tree : Listing}

def lufsImage (tree : Listing) : List Byte := writeSectors (memDisk tree).length (memDisk tree)

theorem rows_named {tableAt dataAt : Nat} {listing : Listing} (good : GoodTree listing) :
    ∀ row ∈ rows tableAt dataAt listing, GoodName row.name := by
  induction listing generalizing tableAt dataAt with
  | nil => exact fun _ member => absurd member List.not_mem_nil
  | file name content rest ih =>
      intro row member
      rcases List.mem_cons.mp member with rfl | later
      · exact good.1
      · exact ih good.2.2 row later
  | dir name children rest _ ih =>
      intro row member
      rcases List.mem_cons.mp member with rfl | later
      · exact good.1
      · exact ih good.2.2.2 row later

theorem tables_named {tableAt dataAt : Nat} {listing : Listing} (good : GoodTree listing) :
    ∀ row ∈ tables tableAt dataAt listing, GoodName row.name := by
  induction listing generalizing tableAt dataAt with
  | nil => exact fun _ member => absurd member List.not_mem_nil
  | file name content rest ih => exact ih good.2.2
  | dir name children rest ihChildren ih =>
      intro row member
      rcases List.mem_append.mp member with deeper | later
      · rcases List.mem_append.mp deeper with own | under
        · exact rows_named good.2.2.1 row own
        · exact ihChildren good.2.2.1 row under
      · exact ih good.2.2.2 row later

theorem all_rows_readable (good : GoodTree tree) (fit : NumbersFit tree) :
    ∀ row ∈ allRows tree, Readable row := by
  have small : tablesStart tree + below tree * entrySize ≤ sectorSize * 2 ^ 32 := tables_small fit
  intro row member
  rcases List.mem_append.mp member with front | under
  · rcases List.mem_cons.mp front with rfl | own
    · exact ⟨root_row_fits fit, Nat.zero_le 32, List.not_mem_nil⟩
    · exact GoodName.readable (rows_named good row own) (rows_fit fit.2 small row own)
  · exact GoodName.readable (tables_named good row under) (tables_fit fit.2 small row under)

theorem all_rows_length (tree : Listing) :
    (allRows tree).length = count tree + below tree + 1 := by
  unfold allRows
  rw [List.length_append, List.length_cons, rows_length, tables_length]
  omega

theorem header_length (entries : Nat) : (header entries).length = sectorSize := by
  unfold header
  rw [List.length_append, List.length_append, encode_le_length, List.length_replicate]
  rfl

theorem image_holds (tree : Listing) :
    Holds (lufsImage tree) 0 (header (count tree + below tree + 1)) ∧
      Holds (lufsImage tree) sectorSize (encodeRows (allRows tree)) ∧
      Holds (lufsImage tree) (dataStart tree) (data tree) := by
  have rowsLength := encode_rows_length (allRows tree)
  rw [all_rows_length] at rowsLength
  have front : (header (count tree + below tree + 1) ++ encodeRows (allRows tree)).length ≤
      dataStart tree := by
    rw [List.length_append, header_length, rowsLength]
    apply Nat.le_trans _ (ceil_sector_ge _)
    unfold tablesStart entrySize
    omega
  have held := disk_holds front (data tree)
  rw [header_length] at held
  exact held

theorem tables_start_length (tree : Listing) :
    (encodeRows (rootRow (count tree + 1) ::
      rows (tablesStart tree) (dataStart tree) tree)).length = (count tree + 1) * entrySize := by
  rw [encode_rows_length, List.length_cons, rows_length]

end Image

section Tools

variable {tree : Listing} {κ σ : Type} {visitor : Visitor κ σ} {context : κ} {start effect : σ}

/-- Past the root's own rows come other tables, which the counter keeps out. -/
theorem walk_root {fuel : Nat} (good : GoodTree tree) (fit : NumbersFit tree)
    (whole : WholeTables visitor) (enough : tree.depth ≤ fuel)
    (visits : visitAll visitor context (tablesStart tree) (dataStart tree) tree start =
      some effect) :
    ∃ visited, walkRows visitor (walkTable visitor (lufsImage tree) (count tree + below tree) fuel)
        (count tree + below tree) context (rows (tablesStart tree) (dataStart tree) tree ++
          tables (tablesStart tree) (dataStart tree) tree) []
        { visited := [], handled := 0, effect := start } =
      some { visited := visited, handled := count tree + below tree, effect := effect } := by
  obtain ⟨_, table, _⟩ := image_holds tree
  unfold allRows at table
  rw [encode_rows_append] at table
  have tablesHold := table.right
  rw [tables_start_length tree] at tablesHold
  have behind : sectorSize < tablesStart tree := by
    unfold tablesStart entrySize
    omega
  have readable : ∀ row ∈ tables (tablesStart tree) (dataStart tree) tree, Readable row :=
    fun row member => all_rows_readable good fit row (List.mem_append_right _ member)
  have ready : Ready (lufsImage tree) (count tree + below tree) fuel (tablesStart tree)
      (dataStart tree) tree (tables (tablesStart tree) (dataStart tree) tree) []
      (Walk.mk [] 0 start) :=
    ⟨behind, readable, tablesHold, enough, Nat.le_of_eq (Nat.zero_add _),
      Or.inr (Nat.le_of_eq (Nat.zero_add _).symm), fun _ _ => List.not_mem_nil,
      fun _ member => absurd member List.not_mem_nil⟩
  obtain ⟨visited, walked, _⟩ := walk_listing whole good.os ready visits
  rw [Nat.zero_add] at walked
  exact ⟨visited, walked⟩

theorem read_root_table (good : GoodTree tree) (fit : NumbersFit tree) :
    readDirTable (lufsImage tree) sectorSize (count tree + below tree + 1) = allRows tree := by
  have table := read_dir_table_rows (all_rows_readable good fit) (image_holds tree).2.1
  rw [all_rows_length] at table
  exact table

theorem print_tree_lines {fuel : Nat} (good : GoodTree tree) (fit : NumbersFit tree)
    (enough : tree.depth ≤ fuel) :
    ∃ visited handled, printTree (lufsImage tree) (fuel + 1) (count tree + below tree) sectorSize
        (count tree + below tree + 1 : Nat) =
      some { visited := visited, handled := handled, effect := treeLines 0 tree } := by
  obtain ⟨visited, walked⟩ := walk_root good fit print_whole enough
    (print_visits 0 (tablesStart tree) (dataStart tree) tree [])
  unfold printTree
  rw [walkTable, Int.toNat_natCast, read_root_table good fit]
  change ∃ visited handled, walkRows printVisitor _ _ 0 (rootRow (count tree + 1) ::
    (rows (tablesStart tree) (dataStart tree) tree ++
      tables (tablesStart tree) (dataStart tree) tree)) [] _ = _
  by_cases nothing : count tree + below tree = 0
  · have empty : tree = .nil := count_zero (by omega)
    refine ⟨[], 0, ?_⟩
    rw [walk_rows_full _ (Or.inr (Nat.le_of_eq nothing)), empty]
    rfl
  · have rootless : (rootRow (count tree + 1)).name = [] ∨ (rootRow (count tree + 1)).name ∈ [] :=
      Or.inl rfl
    refine ⟨visited, count tree + below tree, ?_⟩
    rw [walkRows, if_neg (Nat.not_le_of_lt (Nat.pos_of_ne_zero nothing)), if_pos rootless]
    exact walked

theorem extract_all_runs {fuel : Nat} {cwd : List Text} {outdir : Text} {fs final : FileSystem}
    (good : GoodTree tree) (fit : NumbersFit tree) (enough : tree.depth ≤ fuel)
    (visits : visitAll (extractVisitor (lufsImage tree) cwd) outdir (tablesStart tree)
      (dataStart tree) tree fs = some final) :
    ∃ visited, extractAll (lufsImage tree) cwd (fuel + 1) (count tree + below tree) sectorSize
        (count tree + below tree + 1 : Nat) outdir fs =
      some { visited := visited, handled := count tree + below tree, effect := final } := by
  obtain ⟨visited, walked⟩ := walk_root good fit (extract_whole (lufsImage tree) cwd) enough visits
  refine ⟨visited, ?_⟩
  unfold extractAll
  rw [walkTable, Int.toNat_natCast, read_root_table good fit]
  exact walked

theorem image_magic (tree : Listing) :
    (lufsImage tree).take 4 = [0x4C, 0x75, 0x46, 0x53] ∧
      readAt (lufsImage tree) 4 4 = encodeLE 4 (count tree + below tree + 1) := by
  obtain ⟨head, _, _⟩ := image_holds tree
  unfold header at head
  have magic := head.left.left.read
  have number := head.left.right.read
  rw [encode_le_length] at number
  exact ⟨magic, number⟩

end Tools

section RoundTrip

/-- A path where a directory can be made, with nothing below it yet. It has no
step back, since `os.makedirs` also makes what such a step leaves. -/
structure Fresh (cwd : List Text) (outdir : Text) (fs : FileSystem) : Prop where
  given : outdir ≠ []
  plain : ['.', '.'] ∉ outdir.splitOn '/'
  noFile : ∀ other, other <+: resolve cwd outdir → ∀ content, fs other ≠ some (.file content)
  nothing : ∀ name more, fs (resolve cwd outdir ++ name :: more) = none

def printed (outdir : Text) (tree : Listing) : List Text :=
  ["=== Filesystem metadata ===".toList,
    "Entry count: ".toList ++ (toString (count tree + below tree + 1)).toList] ++
  ["=== Filesystem contents ===".toList] ++ treeLines 0 tree ++
  ["\nExtracting to: ".toList ++ outdir]

theorem main_extracts {tree : Listing} {fuel : Nat} {cwd : List Text} {outdir : Text}
    {fs final : FileSystem} (good : GoodTree tree) (fit : NumbersFit tree)
    (enough : tree.depth ≤ fuel) (fresh : Fresh cwd outdir fs)
    (visits : visitAll (extractVisitor (lufsImage tree) cwd) outdir (tablesStart tree)
      (dataStart tree) tree (withDirs fs (resolve cwd outdir)) = some final) :
    main (fuel + 1) cwd outdir (lufsImage tree) fs = some (printed outdir tree, final) := by
  obtain ⟨magic, number⟩ := image_magic tree
  obtain ⟨_, _, lines⟩ := print_tree_lines good fit enough
  obtain ⟨_, extracted⟩ := extract_all_runs good fit enough visits
  have made := makedirs_place fresh.given fresh.plain fresh.noFile
  have entries : decodeLE (encodeLE 4 (count tree + below tree + 1)) =
      count tree + below tree + 1 := decode_field fit.1
  unfold main
  rw [if_neg (fun different => different magic), number,
    if_neg (fun different => different (encode_le_length 4 _))]
  dsimp only
  rw [entries, if_neg (Nat.succ_ne_zero _), Nat.add_sub_cancel]
  simp only [Option.bind_eq_bind, lines, Option.bind_some, made, extracted]
  rfl

def sampleTree : Listing :=
  .file ['a'] [1, 2] (.dir ['d'] (.dir ['e'] .nil (.file ['x'] [] .nil)) .nil)

def sampleFiles : FileSystem := fun other => if other = [] then some .dir else none

theorem sample_tree_good : GoodTree sampleTree := by
  have one : ∀ c : Char, c ∈ ['a', 'd', 'e', 'x'] → GoodName [c] := by
    intro c member
    simp only [List.mem_cons, List.not_mem_nil, or_false] at member
    rcases member with rfl | rfl | rfl | rfl
    all_goals exact ⟨by decide, by decide, by decide, by decide, by decide, by decide⟩
  refine ⟨one 'a' (by decide), ?_, one 'd' (by decide), ?_, ⟨one 'e' (by decide), ?_, trivial,
    one 'x' (by decide), ?_, trivial⟩, trivial⟩
  all_goals decide

end RoundTrip

end LumenOS.LufsRoundTrip
