import LumenOS.LufsModel

/-!
# The layout of a LuFS image

The table of the root comes first and lists the root itself. The tables of the
other directories follow in depth-first order, then the contents of the files
in the same order. Where a directory's own table lies, everything below it lies
behind: the layout is given by recursion on the listing, with the offset of the
next table and of the next content.
-/

namespace LumenOS.LufsLayout

open LumenOS.ByteMemory LumenOS.FileTree LumenOS.LufsModel

set_option autoImplicit false

section Layout

def count : Listing → Nat
  | .nil => 0
  | .file _ _ rest => count rest + 1
  | .dir _ _ rest => count rest + 1

def below : Listing → Nat
  | .nil => 0
  | .file _ _ rest => below rest
  | .dir _ children rest => count children + below children + below rest

def data : Listing → List Byte
  | .nil => []
  | .file _ content rest => content ++ data rest
  | .dir _ children rest => data children ++ data rest

def tableSpan (offset size : Nat) : Span where
  startBlock := offset / sectorSize
  endBlock := (offset + size - 1) / sectorSize
  startByte := offset % sectorSize
  endByte := (offset + size - 1) % sectorSize

def fileRow (name : Text) (content : List Byte) (offset : Nat) : TableEntry :=
  ⟨name, content.length, true, fileSpan offset content.length⟩

def dirRow (name : Text) (offset entries : Nat) : TableEntry :=
  ⟨name, 0, false, if entries = 0 then ⟨0, 0, 0, 0⟩ else tableSpan offset (entries * entrySize)⟩

def rows : Nat → Nat → Listing → List TableEntry
  | _, _, .nil => []
  | tableAt, dataAt, .file name content rest =>
      fileRow name content dataAt :: rows tableAt (dataAt + content.length) rest
  | tableAt, dataAt, .dir name children rest =>
      dirRow name tableAt (count children) ::
        rows (tableAt + (count children + below children) * entrySize)
          (dataAt + (data children).length) rest

def tables : Nat → Nat → Listing → List TableEntry
  | _, _, .nil => []
  | tableAt, dataAt, .file _ content rest => tables tableAt (dataAt + content.length) rest
  | tableAt, dataAt, .dir _ children rest =>
      rows (tableAt + count children * entrySize) dataAt children ++
        tables (tableAt + count children * entrySize) dataAt children ++
        tables (tableAt + (count children + below children) * entrySize)
          (dataAt + (data children).length) rest

/-- The root's entry for itself, whose start byte is patched. -/
def rootRow (entries : Nat) : TableEntry :=
  ⟨[], 0, false, { tableSpan sectorSize (entries * entrySize) with startByte := entrySize }⟩

def tablesStart (tree : Listing) : Nat := sectorSize + (count tree + 1) * entrySize

def dataStart (tree : Listing) : Nat :=
  ceilSector (tablesStart tree + below tree * entrySize)

def allRows (tree : Listing) : List TableEntry :=
  rootRow (count tree + 1) :: rows (tablesStart tree) (dataStart tree) tree ++
    tables (tablesStart tree) (dataStart tree) tree

def encodeRow (row : TableEntry) : List Byte :=
  ljust 32 ((Utf8.encode row.name).take 32) ++ encodeLE 4 row.size ++
    [if row.isfile then 1 else 0] ++ encodeLE 4 row.span.startBlock ++
    encodeLE 4 row.span.endBlock ++ encodeLE 2 row.span.startByte ++ encodeLE 2 row.span.endByte

def encodeRows (table : List TableEntry) : List Byte := table.flatMap encodeRow

def RowFits (row : TableEntry) : Prop :=
  row.size < 2 ^ 32 ∧ row.span.startBlock < 2 ^ 32 ∧ row.span.endBlock < 2 ^ 32 ∧
    row.span.startByte < 2 ^ 16 ∧ row.span.endByte < 2 ^ 16

def FilesFit : Nat → Listing → Prop
  | _, .nil => True
  | dataAt, .file _ content rest =>
      content.length < 2 ^ 32 ∧ (fileSpan dataAt content.length).startBlock < 2 ^ 32 ∧
        (fileSpan dataAt content.length).endBlock < 2 ^ 32 ∧
        FilesFit (dataAt + content.length) rest
  | dataAt, .dir _ children rest =>
      FilesFit dataAt children ∧ FilesFit (dataAt + (data children).length) rest

/-- The count of entries, the sizes and the block numbers fit in 32 bits. -/
def NumbersFit (tree : Listing) : Prop :=
  count tree + below tree + 1 < 2 ^ 32 ∧ FilesFit (dataStart tree) tree

end Layout

section Plans

/-- `dir_offsets`, and `cur_offset` behind the last table. -/
def tablePlan (tree : Listing) (order : Order) : List (Text × (Nat × Nat)) × Nat :=
  planTables (getEntriesFromDir tree) order.dirOrder sectorSize

/-- `file_data_offset`. -/
def dataOffset (tree : Listing) (order : Order) : Nat := ceilSector (tablePlan tree order).2

/-- `file_offsets` and `file_data`. -/
def filePlan (tree : Listing) (order : Order) : List ((Text × Text) × Span) × List Byte :=
  planFiles (dataOffset tree order) (getEntriesFromDir tree) []

theorem makefs_parts {fuel : Nat} {tree : Listing} {image : List Byte}
    (made : makefs fuel tree = some image) :
    ∃ order head body,
      collectDirs (getEntriesFromDir tree) fuel [] { visited := [], dirOrder := [] } = some order ∧
      packHeader (getEntriesFromDir tree).length = some head ∧
      joinAll (packTable (getEntriesFromDir tree) (tablePlan tree order).1 (filePlan tree order).1)
        order.dirOrder = some body ∧
      image = writeSectors
        (ljust (dataOffset tree order) (head ++ body) ++ (filePlan tree order).2).length
        (ljust (dataOffset tree order) (head ++ body) ++ (filePlan tree order).2) := by
  unfold makefs at made
  obtain ⟨order, collected, made⟩ := Option.bind_eq_some_iff.mp made
  obtain ⟨head, packed, made⟩ := Option.bind_eq_some_iff.mp made
  obtain ⟨body, joined, made⟩ := Option.bind_eq_some_iff.mp made
  exact ⟨order, head, body, collected, packed, joined, (Option.some.inj made).symm⟩

end Plans

theorem pack_entry_fits (row : TableEntry) (fits : RowFits row) :
    packEntry row.name row.size row.isfile row.span = some (encodeRow row) :=
  if_pos fits

theorem write_sectors_pads (fuel : Nat) (memDisk : List Byte) (enough : memDisk.length ≤ fuel) :
    ∃ zeros, writeSectors fuel memDisk = memDisk ++ List.replicate zeros 0 := by
  induction fuel generalizing memDisk with
  | zero =>
      have empty : memDisk = [] := List.eq_nil_of_length_eq_zero (Nat.le_zero.mp enough)
      exact ⟨0, by rw [empty]; rfl⟩
  | succ fuel ih =>
      unfold writeSectors
      by_cases empty : memDisk = []
      · rw [if_pos empty]
        exact ⟨0, by rw [empty]; rfl⟩
      · have positive : 0 < memDisk.length := List.length_pos_iff.mpr empty
        have shorter : (memDisk.drop sectorSize).length ≤ fuel := by
          rw [List.length_drop]
          unfold sectorSize
          omega
        obtain ⟨zeros, rest⟩ := ih (memDisk.drop sectorSize) shorter
        rw [if_neg empty, rest]
        unfold ljust
        by_cases full : sectorSize ≤ memDisk.length
        · have whole : sectorSize - (memDisk.take sectorSize).length = 0 := by
            rw [List.length_take]
            omega
          refine ⟨zeros, ?_⟩
          rw [whole, List.replicate_zero, List.append_nil, ← List.append_assoc,
            List.take_append_drop]
        · have last : memDisk.drop sectorSize = [] := by
            apply List.drop_eq_nil_of_le
            omega
          refine ⟨sectorSize - (memDisk.take sectorSize).length + zeros, ?_⟩
          rw [last, List.nil_append, List.append_assoc, List.replicate_append_replicate,
            List.take_of_length_le (by omega)]

theorem ceil_sector_ge (n : Nat) : n ≤ ceilSector n := by
  unfold ceilSector sectorSize
  omega

theorem ceil_sector_least {n other : Nat} (aligned : sectorSize ∣ other) (above : n ≤ other) :
    ceilSector n ≤ other := by
  unfold ceilSector
  unfold sectorSize at aligned ⊢
  omega

theorem write_sectors_length (fuel : Nat) (memDisk : List Byte) (enough : memDisk.length ≤ fuel) :
    (writeSectors fuel memDisk).length = ceilSector memDisk.length := by
  induction fuel generalizing memDisk with
  | zero =>
      rw [List.eq_nil_of_length_eq_zero (Nat.le_zero.mp enough)]
      rfl
  | succ fuel ih =>
      unfold writeSectors
      by_cases empty : memDisk = []
      · simp [empty, ceilSector, sectorSize]
      · have positive : 0 < memDisk.length := List.length_pos_iff.mpr empty
        have rest := ih (memDisk.drop sectorSize)
        rw [List.length_drop] at rest
        rw [if_neg empty, List.length_append, ljust, List.length_append, List.length_replicate,
          List.length_take, rest (by unfold sectorSize; omega)]
        unfold ceilSector sectorSize
        omega

@[simp] theorem encode_row_length (row : TableEntry) : (encodeRow row).length = entrySize := by
  unfold encodeRow ljust
  simp only [List.length_append, List.length_take, List.length_replicate, encode_le_length,
    List.length_cons, List.length_nil]
  unfold entrySize
  omega

theorem encode_rows_append (first second : List TableEntry) :
    encodeRows (first ++ second) = encodeRows first ++ encodeRows second :=
  List.flatMap_append

theorem encode_rows_cons (row : TableEntry) (table : List TableEntry) :
    encodeRows (row :: table) = encodeRow row ++ encodeRows table :=
  List.flatMap_cons

theorem encode_rows_length (table : List TableEntry) :
    (encodeRows table).length = table.length * entrySize := by
  induction table with
  | nil => exact (Nat.zero_mul entrySize).symm
  | cons row table ih =>
      rw [encode_rows_cons, List.length_append, encode_row_length, ih, List.length_cons,
        Nat.succ_mul, Nat.add_comm]

@[simp] theorem rows_length (tableAt dataAt : Nat) (listing : Listing) :
    (rows tableAt dataAt listing).length = count listing := by
  induction listing generalizing tableAt dataAt with
  | nil => rfl
  | file name content rest ih => simp only [rows, count, List.length_cons, ih]
  | dir name children rest _ ih => simp only [rows, count, List.length_cons, ih]

@[simp] theorem tables_length (tableAt dataAt : Nat) (listing : Listing) :
    (tables tableAt dataAt listing).length = below listing := by
  induction listing generalizing tableAt dataAt with
  | nil => rfl
  | file name content rest ih => simp only [tables, below, ih]
  | dir name children rest ihChildren ih =>
      simp only [tables, below, List.length_append, rows_length, ihChildren, ih]

section Fits

theorem span_bytes (offset size : Nat) :
    (fileSpan offset size).startByte < 2 ^ 16 ∧ (fileSpan offset size).endByte < 2 ^ 16 := by
  unfold fileSpan sectorSize
  dsimp only
  constructor
  · omega
  · split <;> omega

theorem file_row_fits {name : Text} {content : List Byte} {dataAt : Nat}
    (size : content.length < 2 ^ 32)
    (first : (fileSpan dataAt content.length).startBlock < 2 ^ 32)
    (last : (fileSpan dataAt content.length).endBlock < 2 ^ 32) :
    RowFits (fileRow name content dataAt) := by
  obtain ⟨firstByte, lastByte⟩ := span_bytes dataAt content.length
  exact ⟨size, first, last, firstByte, lastByte⟩

theorem table_span_fits {offset size : Nat} (small : offset + size ≤ sectorSize * 2 ^ 32)
    (row : TableEntry) (empty : row.size = 0) (span : row.span = tableSpan offset size)
    (positive : 0 < size) : RowFits row := by
  unfold sectorSize at small
  unfold RowFits
  rw [span, empty]
  unfold tableSpan sectorSize
  dsimp only
  omega

theorem dir_row_fits {name : Text} {tableAt entries : Nat}
    (small : tableAt + entries * entrySize ≤ sectorSize * 2 ^ 32) :
    RowFits (dirRow name tableAt entries) := by
  by_cases empty : entries = 0
  · have zero : (dirRow name tableAt entries).span = ⟨0, 0, 0, 0⟩ := if_pos empty
    unfold RowFits
    rw [zero]
    unfold dirRow
    dsimp only
    omega
  · apply table_span_fits small
    · rfl
    · exact if_neg empty
    · unfold entrySize
      omega

theorem rows_fit {tableAt dataAt : Nat} {listing : Listing} (files : FilesFit dataAt listing)
    (small : tableAt + below listing * entrySize ≤ sectorSize * 2 ^ 32) :
    ∀ row ∈ rows tableAt dataAt listing, RowFits row := by
  induction listing generalizing tableAt dataAt with
  | nil => exact fun _ member => absurd member List.not_mem_nil
  | file name content rest ih =>
      obtain ⟨size, first, last, more⟩ := files
      intro row member
      rcases List.mem_cons.mp member with rfl | later
      · exact file_row_fits size first last
      · exact ih more small row later
  | dir name children rest _ ih =>
      obtain ⟨_, more⟩ := files
      unfold below at small
      rw [Nat.add_mul, Nat.add_mul] at small
      intro row member
      rcases List.mem_cons.mp member with rfl | later
      · apply dir_row_fits
        omega
      · apply ih more _ row later
        rw [Nat.add_mul]
        omega

theorem tables_fit {tableAt dataAt : Nat} {listing : Listing} (files : FilesFit dataAt listing)
    (small : tableAt + below listing * entrySize ≤ sectorSize * 2 ^ 32) :
    ∀ row ∈ tables tableAt dataAt listing, RowFits row := by
  induction listing generalizing tableAt dataAt with
  | nil => exact fun _ member => absurd member List.not_mem_nil
  | file name content rest ih => exact ih files.2.2.2 small
  | dir name children rest ihChildren ih =>
      obtain ⟨inner, more⟩ := files
      unfold below at small
      rw [Nat.add_mul, Nat.add_mul] at small
      intro row member
      rcases List.mem_append.mp member with deeper | later
      · rcases List.mem_append.mp deeper with own | under
        · exact rows_fit inner (by omega) row own
        · exact ihChildren inner (by omega) row under
      · exact ih more (by rw [Nat.add_mul]; omega) row later

theorem tables_small {tree : Listing} (fit : NumbersFit tree) :
    tablesStart tree + below tree * entrySize ≤ sectorSize * 2 ^ 32 := by
  have bound : count tree + below tree + 1 < 2 ^ 32 := fit.1
  unfold tablesStart sectorSize entrySize
  omega

end Fits

end LumenOS.LufsLayout
