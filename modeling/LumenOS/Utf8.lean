import LumenOS.ByteMemory

/-!
# UTF-8 text, with replacement of what is no text

Encoding is the usual one to four bytes a character. Decoding accepts every
byte string: where no well-formed sequence begins, the longest beginning of
one, and at least one byte, stands for a single replacement character.
-/

namespace LumenOS.Utf8

open LumenOS.ByteMemory

set_option autoImplicit false

def encodeChar (c : Char) : List Byte :=
  let n := c.toNat
  if n < 0x80 then [UInt8.ofNat n]
  else if n < 0x800 then [UInt8.ofNat (0xC0 + n / 64), UInt8.ofNat (0x80 + n % 64)]
  else if n < 0x10000 then
    [UInt8.ofNat (0xE0 + n / 4096), UInt8.ofNat (0x80 + n / 64 % 64), UInt8.ofNat (0x80 + n % 64)]
  else
    [UInt8.ofNat (0xF0 + n / 262144), UInt8.ofNat (0x80 + n / 4096 % 64),
     UInt8.ofNat (0x80 + n / 64 % 64), UInt8.ofNat (0x80 + n % 64)]

def encode (text : List Char) : List Byte := text.flatMap encodeChar

/-- What a first byte announces: the length of the sequence, the value it
contributes and the range of the second byte. -/
def lead (first : Nat) : Option (Nat × Nat × Nat × Nat) :=
  if first < 0xC2 then none
  else if first < 0xE0 then some (2, (first - 0xC0) * 64, 0x80, 0xBF)
  else if first = 0xE0 then some (3, 0, 0xA0, 0xBF)
  else if first = 0xED then some (3, 0xD000, 0x80, 0x9F)
  else if first < 0xF0 then some (3, (first - 0xE0) * 4096, 0x80, 0xBF)
  else if first = 0xF0 then some (4, 0, 0x90, 0xBF)
  else if first < 0xF4 then some (4, (first - 0xF0) * 262144, 0x80, 0xBF)
  else if first = 0xF4 then some (4, 0x100000, 0x80, 0x8F)
  else none

def replacement : Char := Char.ofNat 0xFFFD

/-- The bytes at `index` of a sequence of `size` bytes whose value so far is
`value`: the character and how many bytes it took. -/
def continued (size : Nat) : Nat → Nat → List Byte → Char × Nat
  | index, _, [] => (replacement, index)
  | index, value, byte :: rest =>
      if 0x80 ≤ byte.toNat ∧ byte.toNat ≤ 0xBF then
        let value := value + (byte.toNat - 0x80) * 64 ^ (size - 1 - index)
        if index + 1 = size then (Char.ofNat value, size)
        else continued size (index + 1) value rest
      else (replacement, index)

def decodeChar (first : Byte) (rest : List Byte) : Char × Nat :=
  if first.toNat < 0x80 then (Char.ofNat first.toNat, 1)
  else match lead first.toNat, rest with
    | some (size, value, low, high), second :: _ =>
        if low ≤ second.toNat ∧ second.toNat ≤ high then continued size 1 value rest
        else (replacement, 1)
    | _, _ => (replacement, 1)

def decodeWithin : Nat → List Byte → List Char
  | fuel + 1, first :: rest =>
      (decodeChar first rest).1 ::
        decodeWithin fuel ((first :: rest).drop (decodeChar first rest).2)
  | _, _ => []

def decode (bytes : List Byte) : List Char := decodeWithin bytes.length bytes

theorem byte_value {n : Nat} (small : n < 256) : (UInt8.ofNat n).toNat = n := by
  rw [UInt8.toNat_ofNat']
  omega

theorem char_bounds (c : Char) : c.toNat < 0xD800 ∨ 0xDFFF < c.toNat ∧ c.toNat < 0x110000 :=
  c.valid

theorem char_of_value {c : Char} {value : Nat} (same : value = c.toNat) : Char.ofNat value = c := by
  rw [same]
  exact Char.ofNat_toNat c

theorem continued_tail (size index value digit : Nat) (rest : List Byte) (small : digit < 64) :
    continued size index value (UInt8.ofNat (0x80 + digit) :: rest) =
      if index + 1 = size then (Char.ofNat (value + digit * 64 ^ (size - 1 - index)), size)
      else continued size (index + 1) (value + digit * 64 ^ (size - 1 - index)) rest := by
  have byte : (UInt8.ofNat (0x80 + digit)).toNat = 0x80 + digit := byte_value (by omega)
  rw [continued, byte, if_pos (by omega), Nat.add_sub_cancel_left]

theorem decode_char_lead {first second size value low high : Nat} (rest : List Byte)
    (firstSmall : first < 256) (secondSmall : second < 256) (above : 0x80 ≤ first)
    (announced : lead first = some (size, value, low, high))
    (inRange : low ≤ second ∧ second ≤ high) :
    decodeChar (UInt8.ofNat first) (UInt8.ofNat second :: rest) =
      continued size 1 value (UInt8.ofNat second :: rest) := by
  unfold decodeChar
  rw [byte_value firstSmall, if_neg (by omega), announced]
  dsimp only
  rw [byte_value secondSmall, if_pos inRange]

theorem lead_two {n : Nat} (above : 0x80 ≤ n) (below : n < 0x800) :
    lead (0xC0 + n / 64) = some (2, n / 64 * 64, 0x80, 0xBF) := by
  unfold lead
  rw [if_neg (by omega), if_pos (by omega), Nat.add_sub_cancel_left]

theorem lead_three {n : Nat} (above : 0x800 ≤ n) (below : n < 0x10000)
    (scalar : n < 0xD800 ∨ 0xDFFF < n) :
    ∃ low high, lead (0xE0 + n / 4096) = some (3, n / 4096 * 4096, low, high) ∧
      low ≤ 0x80 + n / 64 % 64 ∧ 0x80 + n / 64 % 64 ≤ high := by
  unfold lead
  rw [if_neg (by omega), if_neg (by omega)]
  by_cases least : n / 4096 = 0
  · refine ⟨0xA0, 0xBF, ?_, by omega, by omega⟩
    rw [if_pos (by omega), least]
  · by_cases surrogate : n / 4096 = 13
    · refine ⟨0x80, 0x9F, ?_, by omega, by omega⟩
      rw [if_neg (by omega), if_pos (by omega), surrogate]
    · refine ⟨0x80, 0xBF, ?_, by omega, by omega⟩
      rw [if_neg (by omega), if_neg (by omega), if_pos (by omega), Nat.add_sub_cancel_left]

theorem lead_four {n : Nat} (above : 0x10000 ≤ n) (below : n < 0x110000) :
    ∃ low high, lead (0xF0 + n / 262144) = some (4, n / 262144 * 262144, low, high) ∧
      low ≤ 0x80 + n / 4096 % 64 ∧ 0x80 + n / 4096 % 64 ≤ high := by
  unfold lead
  rw [if_neg (by omega), if_neg (by omega), if_neg (by omega), if_neg (by omega),
    if_neg (by omega)]
  by_cases least : n / 262144 = 0
  · refine ⟨0x90, 0xBF, ?_, by omega, by omega⟩
    rw [if_pos (by omega), least]
  · by_cases greatest : n / 262144 = 4
    · refine ⟨0x80, 0x8F, ?_, by omega, by omega⟩
      rw [if_neg (by omega), if_neg (by omega), if_pos (by omega), greatest]
    · refine ⟨0x80, 0xBF, ?_, by omega, by omega⟩
      rw [if_neg (by omega), if_pos (by omega), Nat.add_sub_cancel_left]

theorem decode_char_encode (c : Char) (rest : List Byte) :
    ∃ first more, encodeChar c = first :: more ∧
      decodeChar first (more ++ rest) = (c, (encodeChar c).length) := by
  have bounds := char_bounds c
  unfold encodeChar
  dsimp only
  by_cases one : c.toNat < 0x80
  · rw [if_pos one]
    refine ⟨_, _, rfl, ?_⟩
    unfold decodeChar
    rw [byte_value (by omega), if_pos one, char_of_value rfl]
    rfl
  · rw [if_neg one]
    by_cases two : c.toNat < 0x800
    · rw [if_pos two]
      refine ⟨_, _, rfl, ?_⟩
      rw [List.cons_append, decode_char_lead _ (by omega) (by omega) (by omega)
        (lead_two (by omega) two) (by omega), continued_tail _ _ _ _ _ (by omega), if_pos rfl]
      have value : c.toNat / 64 * 64 + c.toNat % 64 * 64 ^ (2 - 1 - 1) = c.toNat := by omega
      rw [char_of_value value]
      rfl
    · rw [if_neg two]
      by_cases three : c.toNat < 0x10000
      · rw [if_pos three]
        refine ⟨_, _, rfl, ?_⟩
        obtain ⟨low, high, announced, inRange⟩ :=
          lead_three (show 0x800 ≤ c.toNat by omega) three (by omega)
        rw [List.cons_append, decode_char_lead _ (by omega) (by omega) (by omega) announced inRange,
          continued_tail _ _ _ _ _ (by omega), if_neg (by decide), List.cons_append,
          continued_tail _ _ _ _ _ (by omega), if_pos rfl]
        have value : c.toNat / 4096 * 4096 + c.toNat / 64 % 64 * 64 ^ (3 - 1 - 1) +
            c.toNat % 64 * 64 ^ (3 - 1 - (1 + 1)) = c.toNat := by omega
        rw [char_of_value value]
        rfl
      · rw [if_neg three]
        refine ⟨_, _, rfl, ?_⟩
        obtain ⟨low, high, announced, inRange⟩ :=
          lead_four (show 0x10000 ≤ c.toNat by omega) (by omega)
        rw [List.cons_append, decode_char_lead _ (by omega) (by omega) (by omega) announced inRange,
          continued_tail _ _ _ _ _ (by omega), if_neg (by decide), List.cons_append,
          continued_tail _ _ _ _ _ (by omega), if_neg (by decide), List.cons_append,
          continued_tail _ _ _ _ _ (by omega), if_pos rfl]
        have value : c.toNat / 262144 * 262144 + c.toNat / 4096 % 64 * 64 ^ (4 - 1 - 1) +
            c.toNat / 64 % 64 * 64 ^ (4 - 1 - (1 + 1)) +
            c.toNat % 64 * 64 ^ (4 - 1 - (1 + 1 + 1)) = c.toNat := by omega
        rw [char_of_value value]
        rfl

theorem encode_append (first second : List Char) :
    encode (first ++ second) = encode first ++ encode second :=
  List.flatMap_append

theorem encode_cons (c : Char) (text : List Char) :
    encode (c :: text) = encodeChar c ++ encode text :=
  List.flatMap_cons

/-- Text in front is decoded first, whatever comes behind it. -/
theorem decode_within_append (text : List Char) (tail : List Byte) (fuel : Nat)
    (enough : (encode text ++ tail).length ≤ fuel) :
    ∃ less, tail.length ≤ less ∧
      decodeWithin fuel (encode text ++ tail) = text ++ decodeWithin less tail := by
  induction text generalizing fuel with
  | nil => exact ⟨fuel, enough, rfl⟩
  | cons c text ih =>
      obtain ⟨first, more, bytes, decoded⟩ := decode_char_encode c (encode text ++ tail)
      have whole : encode (c :: text) ++ tail = first :: (more ++ (encode text ++ tail)) := by
        rw [encode_cons, bytes, List.cons_append, List.cons_append, List.append_assoc]
      have size : (encodeChar c).length = more.length + 1 := by
        rw [bytes, List.length_cons]
      have rest : (first :: (more ++ (encode text ++ tail))).drop (encodeChar c).length =
          encode text ++ tail := by
        rw [size, List.drop_succ_cons, List.drop_left]
      rw [whole, List.length_cons, List.length_append] at enough
      obtain ⟨fewer, rfl⟩ : ∃ fewer, fuel = fewer + 1 := ⟨fuel - 1, by omega⟩
      obtain ⟨less, remains, behind⟩ := ih fewer (by omega)
      refine ⟨less, remains, ?_⟩
      rw [whole, decodeWithin, decoded]
      dsimp only
      rw [rest, behind]
      rfl

theorem decode_encode (text : List Char) : decode (encode text) = text := by
  have enough : (encode text ++ []).length ≤ (encode text).length :=
    Nat.le_of_eq (congrArg List.length (List.append_nil _))
  obtain ⟨less, _, decoded⟩ := decode_within_append text [] (encode text).length enough
  have nothing : decodeWithin less [] = [] := by cases less <;> rfl
  rw [List.append_nil, nothing, List.append_nil] at decoded
  exact decoded

section Cut

theorem decode_char_alone {first : Byte} (above : 0x80 ≤ first.toNat) :
    decodeChar first [] = (replacement, 1) := by
  unfold decodeChar
  rw [if_neg (by omega)]
  split
  · rename_i second rest _ nothing
    cases nothing
  · rfl

/-- A sequence that breaks off is one replacement character. -/
theorem decode_char_cut (c : Char) {kept : Nat} (positive : 0 < kept)
    (cut : kept < (encodeChar c).length) :
    ∃ first more, (encodeChar c).take kept = first :: more ∧
      decodeChar first more = (replacement, kept) := by
  have bounds := char_bounds c
  unfold encodeChar at cut ⊢
  dsimp only at cut ⊢
  by_cases one : c.toNat < 0x80
  · rw [if_pos one, List.length_singleton] at cut
    omega
  · rw [if_neg one] at cut ⊢
    by_cases two : c.toNat < 0x800
    · rw [if_pos two] at cut ⊢
      have last : kept = 1 := by
        simp only [List.length_cons, List.length_nil] at cut
        omega
      subst last
      exact ⟨_, _, rfl, decode_char_alone (by rw [byte_value (by omega)]; omega)⟩
    · rw [if_neg two] at cut ⊢
      by_cases three : c.toNat < 0x10000
      · rw [if_pos three] at cut ⊢
        obtain ⟨low, high, announced, inRange⟩ :=
          lead_three (show 0x800 ≤ c.toNat by omega) three (by omega)
        have which : kept = 1 ∨ kept = 2 := by
          simp only [List.length_cons, List.length_nil] at cut
          omega
        rcases which with rfl | rfl
        · exact ⟨_, _, rfl, decode_char_alone (by rw [byte_value (by omega)]; omega)⟩
        · refine ⟨_, _, rfl, ?_⟩
          change decodeChar _ [_] = _
          rw [decode_char_lead _ (by omega) (by omega) (by omega) announced inRange,
            continued_tail _ _ _ _ _ (by omega), if_neg (by decide)]
          rfl
      · rw [if_neg three] at cut ⊢
        obtain ⟨low, high, announced, inRange⟩ :=
          lead_four (show 0x10000 ≤ c.toNat by omega) (by omega)
        have which : kept = 1 ∨ kept = 2 ∨ kept = 3 := by
          simp only [List.length_cons, List.length_nil] at cut
          omega
        rcases which with rfl | rfl | rfl
        · exact ⟨_, _, rfl, decode_char_alone (by rw [byte_value (by omega)]; omega)⟩
        · refine ⟨_, _, rfl, ?_⟩
          change decodeChar _ [_] = _
          rw [decode_char_lead _ (by omega) (by omega) (by omega) announced inRange,
            continued_tail _ _ _ _ _ (by omega), if_neg (by decide)]
          rfl
        · refine ⟨_, _, rfl, ?_⟩
          change decodeChar _ [_, _] = _
          rw [decode_char_lead _ (by omega) (by omega) (by omega) announced inRange,
            continued_tail _ _ _ _ _ (by omega), if_neg (by decide),
            continued_tail _ _ _ _ _ (by omega), if_neg (by decide)]
          rfl

theorem split_at_bound (text : List Char) (limit : Nat) (long : limit < (encode text).length) :
    ∃ front c behind, text = front ++ c :: behind ∧ (encode front).length ≤ limit ∧
      limit < (encode front).length + (encodeChar c).length := by
  induction text generalizing limit with
  | nil => exact absurd long (Nat.not_lt_zero limit)
  | cons c text ih =>
      by_cases here : limit < (encodeChar c).length
      · exact ⟨[], c, text, rfl, Nat.zero_le limit, by rw [encode]; simpa using here⟩
      · rw [encode_cons, List.length_append] at long
        obtain ⟨front, last, behind, split, before, after⟩ :=
          ih (limit - (encodeChar c).length) (by omega)
        refine ⟨c :: front, last, behind, by rw [split]; rfl, ?_, ?_⟩
        · rw [encode_cons, List.length_append]
          omega
        · rw [encode_cons, List.length_append]
          omega

/-- Cutting encoded text keeps the characters in front of the cut, and one that
the cut goes through comes back as the replacement character. -/
theorem decode_take {front behind : List Char} {c : Char} {limit : Nat}
    (before : (encode front).length ≤ limit)
    (after : limit < (encode front).length + (encodeChar c).length) :
    decode ((encode (front ++ c :: behind)).take limit) =
      front ++ if (encode front).length = limit then [] else [replacement] := by
  have taken : (encode (front ++ c :: behind)).take limit =
      encode front ++ (encodeChar c).take (limit - (encode front).length) := by
    rw [encode_append, encode_cons, List.take_append, List.take_of_length_le before,
      List.take_append_of_le_length (by omega)]
  obtain ⟨less, remains, decoded⟩ := decode_within_append front
    ((encodeChar c).take (limit - (encode front).length)) _ (Nat.le_refl _)
  rw [taken]
  unfold decode
  rw [decoded]
  apply congrArg (front ++ ·)
  by_cases whole : (encode front).length = limit
  · rw [if_pos whole, whole, Nat.sub_self, List.take_zero]
    cases less <;> rfl
  · obtain ⟨first, more, bytes, broken⟩ := decode_char_cut c
      (show 0 < limit - (encode front).length by omega) (by omega)
    have size : more.length + 1 = limit - (encode front).length := by
      rw [← List.length_cons, ← bytes, List.length_take]
      omega
    rw [bytes, List.length_cons] at remains
    obtain ⟨fewer, rfl⟩ : ∃ fewer, less = fewer + 1 := ⟨less - 1, by omega⟩
    have done : (first :: more).drop (limit - (encode front).length) = [] :=
      List.drop_eq_nil_of_le (by rw [List.length_cons]; omega)
    rw [if_neg whole, bytes, decodeWithin, broken]
    dsimp only
    rw [done]
    cases fewer <;> rfl

end Cut

/-- Each byte of an encoded character is a small number, zero only for the
zero character. -/
theorem encode_char_bytes {c : Char} {byte : Byte} (member : byte ∈ encodeChar c) :
    ∃ n, n < 256 ∧ byte = UInt8.ofNat n ∧ (n = 0 → c.toNat = 0) := by
  have bounds := char_bounds c
  unfold encodeChar at member
  dsimp only at member
  split at member
  · rw [List.mem_singleton] at member
    exact ⟨c.toNat, by omega, member, id⟩
  · split at member
    · simp only [List.mem_cons, List.not_mem_nil, or_false] at member
      rcases member with rfl | rfl
      all_goals exact ⟨_, by omega, rfl, by omega⟩
    · split at member
      · simp only [List.mem_cons, List.not_mem_nil, or_false] at member
        rcases member with rfl | rfl | rfl
        all_goals exact ⟨_, by omega, rfl, by omega⟩
      · simp only [List.mem_cons, List.not_mem_nil, or_false] at member
        rcases member with rfl | rfl | rfl | rfl
        all_goals exact ⟨_, by omega, rfl, by omega⟩

theorem zero_mem_encode {text : List Char} (zero : (0 : Byte) ∈ encode text) :
    Char.ofNat 0 ∈ text := by
  obtain ⟨c, member, byte⟩ := List.mem_flatMap.mp zero
  obtain ⟨n, small, same, null⟩ := encode_char_bytes byte
  have numbers := congrArg UInt8.toNat same
  rw [byte_value small] at numbers
  rw [← char_of_value (null numbers.symm).symm] at member
  exact member

end LumenOS.Utf8
