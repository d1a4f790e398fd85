import LumenOS.ByteMemory

/-!
# Words pushed on a descending 32-bit stack

Each push stores a word four bytes below the stack pointer, whatever its
alignment and across the wrap at address zero. What has been pushed can be
read back at its distance from the first stack pointer, and what lay at or
above that pointer is untouched as long as the pushes do not go round the
whole address space.
-/

namespace LumenOS.DescendingStack

open LumenOS.ByteMemory

set_option autoImplicit false

def wordAt (memory : Memory) (address : BitVec 32) : BitVec 32 :=
  BitVec.ofNat 32 (load32 memory address.toNat)

def pushAll (memory : Memory) (top : BitVec 32) : List (BitVec 32) → Memory
  | [] => memory
  | word :: words => pushAll (store32 memory (top - 4).toNat word.toNat) (top - 4) words

theorem push_all_append (memory : Memory) (top : BitVec 32) (first second : List (BitVec 32)) :
    pushAll memory top (first ++ second) =
      pushAll (pushAll memory top first) (top - BitVec.ofNat 32 (4 * first.length)) second := by
  induction first generalizing memory top with
  | nil =>
      have same : top - BitVec.ofNat 32 (4 * 0) = top := by bv_omega
      rw [List.length_nil, same]
      rfl
  | cons word first ih =>
      have deeper : top - BitVec.ofNat 32 (4 * (word :: first).length) =
          top - 4 - BitVec.ofNat 32 (4 * first.length) := by
        rw [List.length_cons]
        bv_omega
      rw [deeper]
      exact ih (store32 memory (top - 4).toNat word.toNat) (top - 4)

theorem read_byte_congr (memory : Memory) (left right : Nat) (same : u32 left = u32 right) :
    readByte memory left = readByte memory right := by
  unfold readByte
  rw [same]

theorem word_at_congr (left right : Memory) (address : BitVec 32)
    (same : ∀ i, i < 4 → readByte left (address.toNat + i) = readByte right (address.toNat + i)) :
    wordAt left address = wordAt right address := by
  unfold wordAt
  rw [load32_congr same]

theorem word_at_stored (memory : Memory) (address word : BitVec 32) :
    wordAt (store32 memory address.toNat word.toNat) address = word := by
  have bounded := word.isLt
  unfold wordAt
  rw [load_store_same]
  apply BitVec.eq_of_toNat_eq
  rw [BitVec.toNat_ofNat]
  unfold u32
  omega

theorem word_at_above (memory : Memory) (top : BitVec 32) (words : List (BitVec 32))
    (distance : Nat) (apart : distance + 4 + 4 * words.length ≤ 2 ^ 32) :
    wordAt (pushAll memory top words) (top + BitVec.ofNat 32 distance) =
      wordAt memory (top + BitVec.ofNat 32 distance) := by
  induction words generalizing memory top distance with
  | nil => rfl
  | cons word words ih =>
      simp only [List.length_cons] at apart
      have moved : top + BitVec.ofNat 32 distance =
          top - 4 + BitVec.ofNat 32 (distance + 4) := by
        bv_omega
      have rest := ih (store32 memory (top - 4).toNat word.toNat) (top - 4) (distance + 4)
        (by omega)
      rw [← moved] at rest
      simp only [pushAll]
      rw [rest]
      apply word_at_congr
      intro i iBound
      apply store32_outside
      intro j jBound
      have topBound := top.isLt
      have target : (top + BitVec.ofNat 32 distance).toNat = (top.toNat + distance) % 2 ^ 32 := by
        rw [BitVec.toNat_add, BitVec.toNat_ofNat, Nat.add_mod_mod]
      have pushed : (top - 4).toNat = (2 ^ 32 - 4 + top.toNat) % 2 ^ 32 := by
        rw [BitVec.toNat_sub]
        rfl
      rw [target, pushed]
      unfold u32
      omega

theorem word_at_pushed (memory : Memory) (top : BitVec 32) (words : List (BitVec 32))
    (index : Nat) (bound : index < words.length) (fits : 4 * words.length ≤ 2 ^ 32) :
    wordAt (pushAll memory top words) (top - BitVec.ofNat 32 (4 * (index + 1))) = words[index] := by
  induction words generalizing memory top index with
  | nil => simp at bound
  | cons word words ih =>
      simp only [List.length_cons] at bound fits
      simp only [pushAll]
      cases index with
      | zero =>
          have own := word_at_above (store32 memory (top - 4).toNat word.toNat) (top - 4) words 0
            (by omega)
          have here : top - 4 + BitVec.ofNat 32 0 = top - BitVec.ofNat 32 (4 * (0 + 1)) := by
            bv_omega
          rw [here] at own
          rw [own]
          exact word_at_stored memory (top - 4) word
      | succ index =>
          have deeper := ih (store32 memory (top - 4).toNat word.toNat) (top - 4) index
            (by omega) (by omega)
          have here : top - 4 - BitVec.ofNat 32 (4 * (index + 1)) =
              top - BitVec.ofNat 32 (4 * (index + 1 + 1)) := by
            bv_omega
          rw [here] at deeper
          exact deeper

end LumenOS.DescendingStack
