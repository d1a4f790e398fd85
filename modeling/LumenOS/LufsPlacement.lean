import LumenOS.LufsReader
import LumenOS.LufsWriter
import LumenOS.StepRuns
import LumenOS.Tiling

/-!
# Where the writer puts things

The two plans of `makefs` hand out ranges one behind the other, and the loop that
packs the tables goes through the directories in the order of the plan. So each
table and each content stands in the image in the range that was planned for it.
-/

namespace LumenOS.LufsPlacement

open LumenOS.ByteMemory LumenOS.FileTree LumenOS.LufsModel LumenOS.LufsLayout LumenOS.LufsPaths
open LumenOS.LufsReader LumenOS.LufsWriter LumenOS.StepRuns LumenOS.Tiling

set_option autoImplicit false

section Tables

variable {entries : List Entry} {dirOffsets : List (Text × (Nat × Nat))}
  {fileOffsets : List ((Text × Text) × Span)}

structure RowOf (fileOffsets : List ((Text × Text) × Span)) (dpath : Text) (entry : Entry)
    (row : TableEntry) : Prop where
  name : row.name = storedName entry.name
  size : row.size = entry.size
  isfile : row.isfile = entry.isfile
  span : entry.isfile = true → dictGet fileOffsets (dpath, entry.name) = some row.span

theorem packed_entry {name : Text} {size : Nat} {isfile : Bool} {span : Span} {bytes : List Byte}
    (packed : packEntry name size isfile span = some bytes) :
    bytes.length = entrySize ∧ unpackEntry bytes = ⟨storedName name, size, isfile, span⟩ := by
  unfold packEntry at packed
  split at packed
  · rename_i fits
    have own : encodeRow ⟨name, size, isfile, span⟩ = bytes := Option.some.inj packed
    rw [← own]
    exact ⟨encode_row_length _, unpack_encode_row fits⟩
  · cases packed

theorem packed_row {dpath : Text} {entry : Entry} {bytes : List Byte}
    (packed : packRow entries dirOffsets fileOffsets dpath entry = some bytes) :
    bytes.length = entrySize ∧ RowOf fileOffsets dpath entry (unpackEntry bytes) := by
  unfold packRow at packed
  cases kind : entry.isfile with
  | true =>
      rw [if_pos kind] at packed
      obtain ⟨span, planned, packed⟩ := Option.bind_eq_some_iff.mp packed
      obtain ⟨length, same⟩ := packed_entry packed
      rw [same]
      exact ⟨length, rfl, rfl, kind.symm, fun _ => planned⟩
  | false =>
      have directory : ¬ entry.isfile = true := by simp [kind]
      have any : ∀ span : Span, packEntry entry.name 0 false span = some bytes →
          bytes.length = entrySize ∧ RowOf fileOffsets dpath entry (unpackEntry bytes) := by
        intro span packed
        obtain ⟨length, same⟩ := packed_entry packed
        rw [same]
        exact ⟨length, rfl, (if_neg directory).symm, kind.symm, fun file => absurd file directory⟩
      rw [if_neg directory] at packed
      dsimp only at packed
      split at packed
      · exact any _ packed
      · obtain ⟨table, _, packed⟩ := Option.bind_eq_some_iff.mp packed
        exact any _ packed

theorem packed_rows {dpath : Text} {table : List Entry} {bytes : List Byte}
    (packed : joinAll (packRow entries dirOffsets fileOffsets dpath) table = some bytes) :
    bytes.length = table.length * entrySize ∧ ∀ image offset, Holds image offset bytes →
      List.Forall₂ (RowOf fileOffsets dpath) table (readDirTable image offset table.length) := by
  induction table generalizing bytes with
  | nil =>
      rw [← Option.some.inj packed]
      simp [readDirTable]
  | cons entry table ih =>
      obtain ⟨own, ownPacked, rest⟩ := Option.bind_eq_some_iff.mp packed
      obtain ⟨more, joined, whole⟩ := Option.map_eq_some_iff.mp rest
      obtain ⟨ownLength, row⟩ := packed_row ownPacked
      obtain ⟨moreLength, rows⟩ := ih joined
      rw [← whole]
      constructor
      · rw [List.length_append, ownLength, moreLength, List.length_cons, Nat.succ_mul, Nat.add_comm]
      · intro image offset holds
        have read := holds.left.read
        have behind := holds.right
        rw [ownLength] at read behind
        rw [List.length_cons, readDirTable, read, if_neg (fun short => short ownLength)]
        exact List.Forall₂.cons row (rows image (offset + entrySize) behind)

theorem plan_tables_keys (entries : List Entry) (order : List Text) (tableAt : Nat) :
    (planTables entries order tableAt).1.map Prod.fst = order := by
  induction order generalizing tableAt with
  | nil => rfl
  | cons dpath order ih => rw [plan_tables_cons, List.map_cons, ih]

theorem plan_tables_tile (entries : List Entry) (order : List Text) (tableAt : Nat) :
    Tiles tableAt ((planTables entries order tableAt).1.map Prod.snd)
      (planTables entries order tableAt).2 := by
  induction order generalizing tableAt with
  | nil => rfl
  | cons dpath order ih =>
      rw [plan_tables_cons, List.map_cons]
      exact ⟨rfl, ih _⟩

/-- The tables follow one another as they were planned. -/
theorem packed_tables {order : List Text} {body : List Byte}
    (joined : joinAll (packTable entries dirOffsets fileOffsets) order = some body)
    (tableAt : Nat) :
    tableAt + body.length = (planTables entries order tableAt).2 ∧
      ∀ image, Holds image tableAt body → ∀ item ∈ (planTables entries order tableAt).1,
        ∃ table, packTable entries dirOffsets fileOffsets item.1 = some table ∧
          table.length = item.2.2 ∧ Holds image item.2.1 table := by
  induction order generalizing tableAt body with
  | nil =>
      rw [← Option.some.inj joined]
      simp [planTables]
  | cons dpath order ih =>
      obtain ⟨own, packed, rest⟩ := Option.bind_eq_some_iff.mp joined
      obtain ⟨more, joinedRest, whole⟩ := Option.map_eq_some_iff.mp rest
      have length := (packed_rows packed).1
      obtain ⟨moreLength, held⟩ :=
        ih joinedRest (tableAt + (dirTree entries dpath).length * entrySize)
      rw [plan_tables_cons, ← whole]
      constructor
      · rw [List.length_append, length, ← Nat.add_assoc]
        exact moreLength
      · intro image holds item member
        have behind := holds.right
        rw [length] at behind
        rcases List.mem_cons.mp member with rfl | later
        · exact ⟨own, packed, length, holds.left⟩
        · exact held image behind item later

end Tables

section Contents

/-- Where a recorded range begins, and its last byte. -/
def spanFirst (span : Span) : Nat := span.startBlock * sectorSize + span.startByte

def spanLast (span : Span) : Nat := span.endBlock * sectorSize + span.endByte

theorem file_span_first (offset size : Nat) : spanFirst (fileSpan offset size) = offset :=
  Nat.div_add_mod' offset sectorSize

theorem file_span_last (offset : Nat) {size : Nat} (positive : 0 < size) :
    spanLast (fileSpan offset size) + 1 = offset + size := by
  have last := Nat.div_add_mod' (offset + size - 1) sectorSize
  unfold spanLast fileSpan
  rw [if_pos positive, if_pos positive, last]
  omega

def fileRanges (fileOffsets : List ((Text × Text) × Span)) (entries : List Entry) :
    List (Nat × Nat) :=
  (entries.filter fun entry => 0 < entry.size).filterMap fun entry =>
    (dictGet fileOffsets (entry.parent, entry.name)).map fun span =>
      (spanFirst span, spanLast span + 1 - spanFirst span)

variable {fileOffsets : List ((Text × Text) × Span)}

theorem file_ranges_empty {entry : Entry} (entries : List Entry) (empty : entry.size = 0) :
    fileRanges fileOffsets (entry :: entries) = fileRanges fileOffsets entries := by
  unfold fileRanges
  rw [List.filter_cons_of_neg (by simp [empty])]

theorem file_ranges_cons {entry : Entry} (entries : List Entry) {offset : Nat}
    (positive : 0 < entry.size)
    (planned : dictGet fileOffsets (entry.parent, entry.name) =
      some (fileSpan offset entry.size)) :
    fileRanges fileOffsets (entry :: entries) =
      (offset, entry.size) :: fileRanges fileOffsets entries := by
  have size : offset + entry.size - offset = entry.size := Nat.add_sub_cancel_left _ _
  unfold fileRanges
  rw [List.filter_cons_of_pos (by simp [positive])]
  apply List.filterMap_cons_some
  rw [planned, Option.map_some, file_span_last offset positive, file_span_first, size]

theorem plan_files_tile (dataAt : Nat) (entries : List Entry) (fileData : List Byte)
    (planned : ∀ item ∈ (planFiles dataAt entries fileData).1,
      dictGet fileOffsets item.1 = some item.2) :
    Tiles (dataAt + fileData.length) (fileRanges fileOffsets entries)
      (dataAt + (planFiles dataAt entries fileData).2.length) := by
  induction entries generalizing fileData with
  | nil => rfl
  | cons entry entries ih =>
      cases kind : entry.isfile with
      | false =>
          have empty : entry.size = 0 := if_neg (by simp [kind])
          rw [plan_files_dir _ _ _ _ kind] at planned ⊢
          rw [file_ranges_empty entries empty]
          exact ih fileData planned
      | true =>
          have length : entry.size = entry.content.length := if_pos kind
          rw [plan_files_file _ _ _ _ kind] at planned ⊢
          have own := planned _ List.mem_cons_self
          have later := ih (fileData ++ entry.content)
            (fun item member => planned item (List.mem_cons_of_mem _ member))
          rw [List.length_append, ← length, ← Nat.add_assoc] at later
          by_cases empty : entry.size = 0
          · rw [file_ranges_empty entries empty]
            rw [empty] at later
            exact later
          · rw [file_ranges_cons entries (Nat.pos_of_ne_zero empty) own]
            exact ⟨rfl, later⟩

theorem plan_files_grow (dataAt : Nat) (entries : List Entry) (fileData : List Byte) :
    ∃ more, (planFiles dataAt entries fileData).2 = fileData ++ more := by
  induction entries generalizing fileData with
  | nil => exact ⟨[], (List.append_nil fileData).symm⟩
  | cons entry entries ih =>
      cases kind : entry.isfile with
      | false =>
          rw [plan_files_dir _ _ _ _ kind]
          exact ih fileData
      | true =>
          obtain ⟨more, grown⟩ := ih (fileData ++ entry.content)
          rw [plan_files_file _ _ _ _ kind]
          use entry.content ++ more
          rw [grown, List.append_assoc]

theorem plan_files_place (dataAt : Nat) (entries : List Entry) (fileData : List Byte) :
    ∀ entry ∈ entries, entry.isfile = true → ∃ offset,
      Holds (planFiles dataAt entries fileData).2 offset entry.content ∧
        ((entry.parent, entry.name), fileSpan (dataAt + offset) entry.size) ∈
          (planFiles dataAt entries fileData).1 := by
  induction entries generalizing fileData with
  | nil => simp
  | cons first entries ih =>
      intro entry member file
      cases kind : first.isfile with
      | false =>
          rw [plan_files_dir _ _ _ _ kind]
          rcases List.mem_cons.mp member with rfl | later
          · simp [kind] at file
          · exact ih fileData entry later file
      | true =>
          rw [plan_files_file _ _ _ _ kind]
          rcases List.mem_cons.mp member with rfl | later
          · obtain ⟨more, grown⟩ := plan_files_grow dataAt entries (fileData ++ entry.content)
            exact ⟨fileData.length, ⟨fileData, more, grown, rfl⟩, List.mem_cons_self⟩
          · obtain ⟨offset, held, planned⟩ := ih (fileData ++ first.content) entry later file
            exact ⟨offset, held, List.mem_cons_of_mem _ planned⟩

end Contents

section Trees

def dirPlaces (listing : Listing) : List (List Text) := (dirs [] listing).map Prod.fst

theorem dirs_under (here : List Text) (listing : Listing) :
    dirs here listing = (dirs [] listing).map fun found => (here ++ found.1, found.2) := by
  induction listing generalizing here with
  | nil => rfl
  | file name content rest ih => exact ih here
  | dir name children rest ihChildren ih =>
      rw [dirs, dirs, ihChildren (here ++ [name]), ihChildren ([] ++ [name]), ih here]
      simp [Function.comp_def]

theorem dir_places_dir (name : Text) (children rest : Listing) :
    dirPlaces (.dir name children rest) =
      [name] :: (dirPlaces children).map (List.cons name) ++ dirPlaces rest := by
  unfold dirPlaces
  rw [dirs, dirs_under ([] ++ [name]) children]
  simp [Function.comp_def]

theorem dir_paths_places (listing : Listing) :
    dirPaths [] listing = (dirPlaces listing).map pathText := by
  unfold dirPaths dirPlaces
  rw [List.map_map]
  rfl

theorem dir_places_lookup {listing : Listing} (tree : OsTree listing) (place : List Text) :
    place ∈ dirPlaces listing ↔ place ≠ [] ∧ listing.lookup place = some .dir := by
  induction listing generalizing place with
  | nil => cases place <;> simp [dirPlaces, dirs, Listing.lookup]
  | file name content rest ih =>
      have later := ih tree.2.2
      cases place with
      | nil =>
          change [] ∈ dirPlaces rest ↔ _
          simp [later]
      | cons first more =>
          change first :: more ∈ dirPlaces rest ↔ _
          rw [later, Listing.lookup]
          by_cases same : first = name
          · have absent := lookup_absent (OsTree.distinct tree.2.1) more
            rw [if_pos same, same, absent]
            split <;> simp
          · rw [if_neg same]
  | dir name children rest ihChildren ih =>
      obtain ⟨_, ascending, inner, behind⟩ := tree
      have later := ih behind
      rw [dir_places_dir]
      cases place with
      | nil => simp [later]
      | cons first more =>
          rw [Listing.lookup, List.cons_append, List.mem_cons, List.mem_append, later]
          by_cases same : first = name
          · have absent := lookup_absent (OsTree.distinct ascending) more
            rw [if_pos same, same, absent]
            cases more with
            | nil => simp [Listing.lookup]
            | cons next more => simp [ihChildren inner]
          · simp [same, Ne.symm same]

theorem file_listed (here : List Text) {listing : Listing} {place : List Text} {name : Text}
    {content : List Byte} (found : listing.lookup (place ++ [name]) = some (.file content)) :
    ⟨name, true, pathText (here ++ place), content⟩ ∈ entriesBelow (pathText here) listing := by
  induction listing generalizing here place with
  | nil => cases place <;> simp [Listing.lookup] at found
  | file other bytes rest ih =>
      unfold entriesBelow
      cases place with
      | nil =>
          rw [List.nil_append, Listing.lookup] at found
          by_cases same : name = other
          · simp [same] at found
            simp [same, found]
          · rw [if_neg same] at found
            exact List.mem_cons_of_mem _ (ih here found)
      | cons first more =>
          rw [List.cons_append, Listing.lookup] at found
          by_cases same : first = other
          · simp [same] at found
          · rw [if_neg same] at found
            exact List.mem_cons_of_mem _ (ih here found)
  | dir other children rest ihChildren ih =>
      unfold entriesBelow
      cases place with
      | nil =>
          rw [List.nil_append, Listing.lookup] at found
          by_cases same : name = other
          · simp [same, Listing.lookup] at found
          · rw [if_neg same] at found
            exact List.mem_append_right _ (ih here found)
      | cons first more =>
          rw [List.cons_append, Listing.lookup] at found
          by_cases same : first = other
          · rw [if_pos same] at found
            have deeper := ihChildren (here ++ [other]) found
            rw [path_text_snoc, List.append_assoc] at deeper
            rw [same]
            exact List.mem_append_left _ (List.mem_cons_of_mem _ deeper)
          · rw [if_neg same] at found
            exact List.mem_append_right _ (ih here found)

end Trees

section Image

/-- The image keeps to the plans, and the plans to the tree. -/
structure LaidOut (tree : Listing) (order : Order) (image : List Byte) : Prop where
  rootListed : rootEntry ∈ dirTree (getEntriesFromDir tree) [] ∧ childPath [] rootEntry.name = []
  directories : ∃ places : List (List Text), places.Nodup ∧
    (∀ place, place ∈ places ↔ tree.lookup place = some .dir) ∧
    order.dirOrder = places.map pathText
  once : order.dirOrder.Nodup
  tables : ∀ dpath ∈ order.dirOrder, ∃ offset table,
    dictGet (tablePlan tree order).1 dpath = some (offset, table.length) ∧
    packTable (getEntriesFromDir tree) (tablePlan tree order).1 (filePlan tree order).1 dpath =
      some table ∧
    readAt image offset table.length = table ∧
    List.Forall₂ (RowOf (filePlan tree order).1 dpath) (dirTree (getEntriesFromDir tree) dpath)
      (readDirTable image offset (dirTree (getEntriesFromDir tree) dpath).length)
  tablesCover : Covers sectorSize ((tablePlan tree order).1.map Prod.snd) (tablePlan tree order).2
  aligned : sectorSize ∣ dataOffset tree order ∧ (tablePlan tree order).2 ≤ dataOffset tree order ∧
    ∀ other, sectorSize ∣ other → (tablePlan tree order).2 ≤ other → dataOffset tree order ≤ other
  contents : readAt image (dataOffset tree order) (filePlan tree order).2.length =
    (filePlan tree order).2
  files : ∀ place name content, tree.lookup (place ++ [name]) = some (.file content) →
    content ≠ [] → ∃ span, dictGet (filePlan tree order).1 (pathText place, name) = some span ∧
      spanLast span + 1 = spanFirst span + content.length ∧
      readAt image (spanFirst span) content.length = content
  filesCover : Covers (dataOffset tree order)
    (fileRanges (filePlan tree order).1 (getEntriesFromDir tree))
    (dataOffset tree order + (filePlan tree order).2.length)
  sectors : image.length = ceilSector (dataOffset tree order + (filePlan tree order).2.length) ∧
    sectorSize ∣ image.length

variable {tree : Listing} {order : Order} {image : List Byte} {fuel : Nat}

theorem pack_header_length {entries : Nat} {head : List Byte}
    (packed : packHeader entries = some head) : head.length = sectorSize := by
  unfold packHeader at packed
  split at packed
  · rw [← Option.some.inj packed, List.length_append, List.length_append, encode_le_length,
      List.length_replicate]
    rfl
  · cases packed

theorem collect_deeper (entries : List Entry) {fuel more : Nat} (deeper : fuel ≤ more)
    (parent : Text) (order : Order) :
    Extends (collectDirs entries fuel parent order) (collectDirs entries more parent order) := by
  induction fuel generalizing more parent order with
  | zero =>
      intro final ran
      cases ran
  | succ fuel ih =>
      cases more with
      | zero => omega
      | succ more =>
          rw [collectDirs, collectDirs]
          apply extends_fold
          intro order entry
          unfold collectEntry
          split
          · apply extends_refl
          · dsimp only
            split
            · apply extends_refl
            · apply ih (Nat.le_of_succ_le_succ deeper)

theorem collected_order (good : OsTree tree)
    (collected : collectDirs (getEntriesFromDir tree) fuel [] { visited := [], dirOrder := [] } =
      some order) : order.dirOrder = [] :: dirPaths [] tree := by
  obtain ⟨other, ordered, places, _⟩ := plan_made good (Nat.le_max_right fuel (tree.depth + 2))
  have same := collect_deeper (getEntriesFromDir tree) (Nat.le_max_left fuel (tree.depth + 2)) []
    _ order collected
  rw [same] at ordered
  rw [Option.some.inj ordered, places]

theorem order_once (good : OsTree tree) (places : order.dirOrder = [] :: dirPaths [] tree) :
    order.dirOrder.Nodup := by
  rw [places]
  exact List.nodup_cons.mpr ⟨dir_paths_not_here root_good good, dir_paths_nodup root_good good⟩

theorem order_places (good : OsTree tree) (places : order.dirOrder = [] :: dirPaths [] tree) :
    ∃ places : List (List Text), places.Nodup ∧
      (∀ place, place ∈ places ↔ tree.lookup place = some .dir) ∧
      order.dirOrder = places.map pathText := by
  have same : order.dirOrder = ([] :: dirPlaces tree).map pathText := by
    rw [places, dir_paths_places]
    rfl
  have once := order_once good places
  rw [same] at once
  use [] :: dirPlaces tree, once.of_map, ?_, same
  intro place
  rw [List.mem_cons, dir_places_lookup good]
  by_cases root : place = []
  · simp [root, lookup_nil]
  · simp [root]

theorem files_recorded (good : OsTree tree) (order : Order) :
    ∀ item ∈ (filePlan tree order).1, dictGet (filePlan tree order).1 item.1 = some item.2 := by
  unfold filePlan
  rw [plan_files_made]
  exact files_planned good (dataOffset tree order)

theorem planned_tables_stand {body : List Byte} (once : order.dirOrder.Nodup)
    (joined : joinAll (packTable (getEntriesFromDir tree) (tablePlan tree order).1
      (filePlan tree order).1) order.dirOrder = some body) (held : Holds image sectorSize body) :
    ∀ dpath ∈ order.dirOrder, ∃ offset table,
      dictGet (tablePlan tree order).1 dpath = some (offset, table.length) ∧
      packTable (getEntriesFromDir tree) (tablePlan tree order).1 (filePlan tree order).1 dpath =
        some table ∧
      readAt image offset table.length = table ∧
      List.Forall₂ (RowOf (filePlan tree order).1 dpath) (dirTree (getEntriesFromDir tree) dpath)
        (readDirTable image offset (dirTree (getEntriesFromDir tree) dpath).length) := by
  intro dpath member
  rw [← plan_tables_keys (getEntriesFromDir tree) order.dirOrder sectorSize] at member once
  obtain ⟨item, planned, rfl⟩ := List.mem_map.mp member
  obtain ⟨table, packed, size, stands⟩ :=
    (packed_tables joined sectorSize).2 image held item planned
  use item.2.1, table
  rw [size]
  have read := stands.read
  rw [size] at read
  exact ⟨dict_get_member once planned, packed, read,
    (packed_rows packed).2 image item.2.1 stands⟩

theorem planned_file_stands (good : OsTree tree)
    (held : Holds image (dataOffset tree order) (filePlan tree order).2) {place : List Text}
    {name : Text} {content : List Byte}
    (found : tree.lookup (place ++ [name]) = some (.file content)) (nonempty : content ≠ []) :
    ∃ span, dictGet (filePlan tree order).1 (pathText place, name) = some span ∧
      spanLast span + 1 = spanFirst span + content.length ∧
      readAt image (spanFirst span) content.length = content := by
  have listed := List.mem_cons_of_mem rootEntry (file_listed [] found)
  obtain ⟨offset, stands, planned⟩ := plan_files_place (dataOffset tree order)
    (getEntriesFromDir tree) [] _ listed rfl
  have first := file_span_first (dataOffset tree order + offset) content.length
  have last := file_span_last (dataOffset tree order + offset) (List.length_pos_iff.mpr nonempty)
  use fileSpan (dataOffset tree order + offset) content.length,
    files_recorded good order _ planned
  rw [first, last]
  exact ⟨rfl, (held.inner stands).read⟩

/-- Every image that the writer leaves is laid out as planned. -/
theorem makefs_lays_out (good : OsTree tree) (made : makefs fuel tree = some image) :
    ∃ order, collectDirs (getEntriesFromDir tree) fuel [] { visited := [], dirOrder := [] } =
      some order ∧ LaidOut tree order image := by
  obtain ⟨order, head, body, collected, packed, joined, disk⟩ := makefs_parts made
  have places := collected_order good collected
  have once := order_once good places
  have headLength := pack_header_length packed
  have bodyLength : sectorSize + body.length = (tablePlan tree order).2 :=
    (packed_tables joined sectorSize).1
  have before : (head ++ body).length ≤ dataOffset tree order := by
    rw [List.length_append, headLength, bodyLength]
    exact ceil_sector_ge _
  obtain ⟨_, tablesHeld, dataHeld⟩ := disk_holds before (filePlan tree order).2
  have length := write_sectors_length
    (ljust (dataOffset tree order) (head ++ body) ++ (filePlan tree order).2).length
    (ljust (dataOffset tree order) (head ++ body) ++ (filePlan tree order).2) (Nat.le_refl _)
  rw [← disk] at tablesHeld dataHeld length
  rw [headLength] at tablesHeld
  rw [List.length_append, padded_length before] at length
  use order, collected
  constructor
  · rw [root_table good]
    exact ⟨List.mem_cons_self, rfl⟩
  · exact order_places good places
  · exact once
  · exact planned_tables_stand once joined tablesHeld
  · exact (plan_tables_tile (getEntriesFromDir tree) order.dirOrder sectorSize).covers
  · exact ⟨Nat.dvd_mul_left sectorSize _, ceil_sector_ge _, fun _ => ceil_sector_least⟩
  · exact dataHeld.read
  · intro place name content found nonempty
    exact planned_file_stands good dataHeld found nonempty
  · have tiled := plan_files_tile (dataOffset tree order) (getEntriesFromDir tree) []
      (files_recorded good order)
    rw [List.length_nil, Nat.add_zero] at tiled
    exact tiled.covers
  · rw [length]
    exact ⟨rfl, Nat.dvd_mul_left sectorSize _⟩

def mixedTree : Listing :=
  .file ['a'] [1, 2, 3] (.dir ['d'] (.file ['e'] [] .nil) (.dir ['f'] (.file ['g'] [4] .nil) .nil))

theorem mixed_tree_good : OsTree mixedTree := by
  have named : ∀ c : Char, c ≠ '/' → c ≠ '.' → c ≠ Char.ofNat 0 → OsName [c] := by
    intro c slash dot nul
    constructor <;> simp [Ne.symm slash, dot, Ne.symm nul]
  refine ⟨named 'a' ?_ ?_ ?_, ?_, named 'd' ?_ ?_ ?_, ?_, ⟨named 'e' ?_ ?_ ?_, ?_, trivial⟩,
    named 'f' ?_ ?_ ?_, ?_, ⟨named 'g' ?_ ?_ ?_, ?_, trivial⟩, trivial⟩
  all_goals decide

theorem makefs_lays_out_mixed :
    ∃ order, collectDirs (getEntriesFromDir mixedTree) 3 [] { visited := [], dirOrder := [] } =
      some order ∧
      LaidOut mixedTree order (writeSectors (memDisk mixedTree).length (memDisk mixedTree)) :=
  makefs_lays_out mixed_tree_good (makefs_image mixed_tree_good
    ⟨by decide, by decide, by decide, by decide, ⟨by decide, by decide, by decide, trivial⟩,
      ⟨by decide, by decide, by decide, trivial⟩, trivial⟩ (by decide))

end Image

end LumenOS.LufsPlacement
