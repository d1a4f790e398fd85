import LumenOS.Fat32Navigation
import Mathlib.Algebra.GroupWithZero.Nat

/-!
# A file read piece by piece

A caller looks a path up and reads the file in pieces of any sizes, each behind
the one before at the offset it has come to. However the sizes are chosen the
pieces join to the front of the content, up to its end.
-/

namespace LumenOS.Fat32Stream

open LumenOS.ByteMemory LumenOS.Fat32Model LumenOS.Fat32Delivery LumenOS.Fat32Slice
open LumenOS.Fat32Records LumenOS.Fat32Navigation LumenOS.DirectoryTree
open LumenOS.StepRuns

set_option autoImplicit false

structure Reader where
  offset : Nat
  memory : Memory

section Pieces

variable (disk : Nat → Byte) (fs : Fs) (sector buf : Nat)

def readNext (fuel : Nat) (handle : File) (out : Nat) (reader : Reader) (size : Nat) :
    Except Stop Reader :=
  (fat32Read (deliverSectors disk) fs sector buf fuel handle reader.offset size
    (out + reader.offset) reader.memory).map fun result =>
      ⟨reader.offset + result.1, result.2⟩

def readPieces (fuel : Nat) (handle : File) (out : Nat) (memory : Memory) (sizes : List Nat) :
    Except Stop Reader :=
  sizes.foldlM (readNext disk fs sector buf fuel handle out) ⟨0, memory⟩

/-- The front of the content has come, as far as was asked, and nothing else
outside the buffers has changed. -/
structure Streamed (content : List Byte) (memory : Memory) (out asked : Nat) (reader : Reader) :
    Prop where
  offset : reader.offset = min asked content.length
  copied : Copied sector buf memory reader.memory out reader.offset (content.take reader.offset)

variable {disk fs}

theorem streamed_nothing (content : List Byte) (memory : Memory) (out : Nat) :
    Streamed sector buf content memory out 0 ⟨0, memory⟩ :=
  ⟨(Nat.zero_min _).symm, rfl, fun _ _ _ _ => rfl⟩

variable (mounted : Mounted disk fs) (positive : 1 ≤ fs.sectorsPerCluster)
  (small : fs.sectorsPerCluster ≤ 8) {handle : File} {content : List Byte}
  (keeps : KeepsFile disk fs handle.firstCluster handle.size content) {memory : Memory}
  {out asked : Nat}

include mounted positive small keeps

theorem next_streamed {reader : Reader}
    (streamed : Streamed sector buf content memory out asked reader) (size : Nat)
    (word : asked + size < 2 ^ 32) (away : OffBuffers sector buf out (asked + size)) :
    ∃ needed next,
      (∀ fuel, needed ≤ fuel →
        readNext disk fs sector buf fuel handle out reader size = .ok next) ∧
      Streamed sector buf content memory out (asked + size) next := by
  have offset := streamed.offset
  obtain ⟨needed, final, reads, piece⟩ := read_kept sector buf mounted positive small keeps
    reader.offset size (out + reader.offset) (by omega) reader.memory
    (off_buffers_part away reader.offset size (by omega))
  generalize come : (if reader.offset ≥ content.length then 0
    else min size (content.length - reader.offset)) = r at reads piece
  have sum : reader.offset + r = min (asked + size) content.length := by
    split_ifs at come <;> omega
  have joined := copied_append sector buf (by omega)
    (off_buffers_part away 0 (reader.offset + r) (by omega)) streamed.copied piece
  rw [← List.take_add] at joined
  refine ⟨needed, ⟨reader.offset + r, final⟩, ?_, sum, joined⟩
  intro fuel enough
  unfold readNext
  rw [reads fuel enough]
  rfl

theorem pieces_streamed (sizes : List Nat) {reader : Reader}
    (streamed : Streamed sector buf content memory out asked reader)
    (word : asked + sizes.sum < 2 ^ 32) (away : OffBuffers sector buf out (asked + sizes.sum)) :
    ∃ needed final,
      (∀ fuel, needed ≤ fuel →
        sizes.foldlM (readNext disk fs sector buf fuel handle out) reader = .ok final) ∧
      Streamed sector buf content memory out (asked + sizes.sum) final := by
  induction sizes generalizing reader asked with
  | nil => exact ⟨0, reader, fun _ _ => rfl, streamed⟩
  | cons size sizes ih =>
      rw [List.sum_cons, ← Nat.add_assoc] at word away ⊢
      obtain ⟨first, next, reads, later⟩ := next_streamed sector buf mounted positive small keeps
        streamed size (by omega) (off_buffers_part away 0 (asked + size) (by omega))
      obtain ⟨rest, final, readsRest, whole⟩ := ih later word away
      refine ⟨first + rest, final, ?_, whole⟩
      intro fuel enough
      rw [List.foldlM_cons, reads fuel (by omega)]
      exact readsRest fuel (by omega)

end Pieces

section Paths

variable {disk : Nat → Byte} {fs : Fs} (sector buf : Nat)

/-- A path that leads to a file in the tree, looked up in the volume that keeps
the tree and read in pieces, gives the content of the file. -/
theorem path_streamed (mounted : Mounted disk fs) (positive : 1 ≤ fs.sectorsPerCluster)
    (small : fs.sectorsPerCluster ≤ 8) {tree : Tree Name83 (List Byte)}
    (holds : HoldsTree disk fs tree) {rounds : Nat} (enough : 2 ^ 28 ≤ rounds) (memory : Memory)
    (names : List Name83)
    (sound : EachStep (lookUp disk fs sector buf rounds)
      (fun state name => Sound disk fs state.handle name) (opened fs memory) names)
    (content : List Byte)
    (leads : (run (Walk.visit dotName dotdotName) (Walk.fromRoot tree) names).spot = .file content)
    (out : Nat) (sizes : List Nat) (word : sizes.sum < 2 ^ 32)
    (away : OffBuffers sector buf out sizes.sum) :
    let state := run (lookUp disk fs sector buf rounds) (opened fs memory) names
    ∃ needed final,
      (∀ fuel, needed ≤ fuel →
        readPieces disk fs sector buf fuel state.handle out state.memory sizes = .ok final) ∧
      Streamed sector buf content state.memory out sizes.sum final := by
  intro state
  have geometry := mounted_small_clusters mounted positive small
  have agrees := reached_related (look_up_agrees sector buf geometry enough) (opened fs memory)
    (Walk.fromRoot tree) (opened_agrees holds memory) names sound names List.prefix_rfl
  have denotes := agrees.denotes
  rw [leads] at denotes
  have streamed := pieces_streamed sector buf mounted positive small denotes.2 sizes
    (streamed_nothing sector buf content state.memory out) (by omega) (by rwa [Nat.zero_add])
  rwa [Nat.zero_add] at streamed

end Paths

section Sample

variable (sector buf : Nat)

theorem nested_root_sound (memory : Memory) :
    Sound nestedDisk nestedFs (opened nestedFs memory).handle subdirName := by
  refine ⟨[2], @nested_chain 2 (by decide), ?_⟩
  rw [nested_root_records]
  intro entry found
  cases found
  exact ⟨rfl, by decide, fun _ => by decide⟩

theorem nested_hello_sound : Sound nestedDisk nestedFs (recordFile subdirEntry) helloName := by
  refine ⟨[3], @nested_chain 3 (by decide), ?_⟩
  rw [nested_subdir_records]
  intro entry found
  cases found
  exact ⟨rfl, by decide, fun _ => by decide⟩

theorem nested_path_sound (memory : Memory) :
    EachStep (lookUp nestedDisk nestedFs sector buf (2 ^ 28))
      (fun state name => Sound nestedDisk nestedFs state.handle name) (opened nestedFs memory)
      [subdirName, helloName] := by
  obtain ⟨inside, entered⟩ := nested_enters sector buf (Nat.le_refl (2 ^ 28)) memory
  refine ⟨nested_root_sound memory, ?_, trivial⟩
  rw [entered]
  exact nested_hello_sound

/-- Five bytes in pieces of two, none, two and nine. -/
theorem path_streamed_nested :
    let state := run (lookUp nestedDisk nestedFs 0x300000 0x400000 (2 ^ 28))
      (opened nestedFs fun _ => 0) [subdirName, helloName]
    ∃ needed final,
      (∀ fuel, needed ≤ fuel →
        readPieces nestedDisk nestedFs 0x300000 0x400000 fuel state.handle 0x500000 state.memory
          [2, 0, 2, 9] = .ok final) ∧
      Streamed 0x300000 0x400000 hello state.memory 0x500000 13 final :=
  path_streamed 0x300000 0x400000 nested_mounted nested_geometry.positive nested_geometry.small
    nested_holds (Nat.le_refl _) (fun _ => 0) [subdirName, helloName]
    (nested_path_sound 0x300000 0x400000 fun _ => 0) hello rfl 0x500000 [2, 0, 2, 9] (by decide)
    ⟨disjoint_of_separate (by decide) (by decide) (by decide),
      disjoint_of_separate (by decide) (by decide) (by decide)⟩

end Sample

end LumenOS.Fat32Stream
